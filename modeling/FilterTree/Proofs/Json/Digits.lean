import Mathlib.Data.List.TakeWhile
import FilterTree.Json.Reader

/-! What a reader gives back is a rest of what it was given, and the only failure that is no fault of
the syntax is a number with too many digits. -/

namespace FilterTree

def HasLongNumber (cs : List Char) : Prop :=
  ∃ ds, ds <:+: cs ∧ Json.digitLimit < ds.length ∧ ∀ d ∈ ds, d.isDigit = true

theorem HasLongNumber.of_suffix {cs rest : List Char} (h : HasLongNumber rest)
    (hrest : rest <:+ cs) : HasLongNumber cs := by
  obtain ⟨ds, hds, hlen, hdigit⟩ := h
  exact ⟨ds, hds.trans hrest.isInfix, hlen, hdigit⟩

theorem hasLongNumber_takeWhile {cs : List Char}
    (h : Json.digitLimit < (cs.takeWhile Char.isDigit).length) : HasLongNumber cs :=
  ⟨_, (List.takeWhile_prefix _).isInfix, h, fun _ => List.mem_takeWhile_imp⟩

namespace Json

def Within {α : Type} (cs : List Char) : Except Fault (α × List Char) → Prop
  | .ok (_, rest) => rest <:+ cs
  | .error .tooManyDigits => HasLongNumber cs
  | .error (.syntaxFault _ _) => True

namespace Within
variable {α β : Type} {cs rest : List Char}

theorem of_suffix {x : Except Fault (α × List Char)} (h : Within rest x) (hrest : rest <:+ cs) :
    Within cs x := by
  rcases x with (_ | _) | _
  · trivial
  · exact HasLongNumber.of_suffix h hrest
  · exact List.IsSuffix.trans h hrest

theorem bind {x : Except Fault (α × List Char)} {f : α × List Char → Except Fault (β × List Char)}
    (hx : Within cs x) (hf : ∀ a rest, rest <:+ cs → Within rest (f (a, rest))) :
    Within cs (x >>= f) := by
  rcases x with (_ | _) | ⟨a, rest⟩
  · trivial
  · exact hx
  · exact (hf a rest hx).of_suffix hx

end Within

theorem suffix_skipBlanks (cs : List Char) : skipBlanks cs <:+ cs :=
  List.dropWhile_suffix _

theorem suffix_of_skipBlanks {c : Char} {cs more : List Char} (h : skipBlanks cs = c :: more) :
    more <:+ cs :=
  (List.suffix_cons c more).trans (h ▸ suffix_skipBlanks cs)

theorem suffix_codeUnit? {cs rest : List Char} {n : Nat} (h : codeUnit? cs = some (n, rest)) :
    rest <:+ cs := by
  unfold codeUnit? at h
  split at h
  · next a b c d more =>
    have hrest : more = rest := by
      simp only [Option.bind_eq_bind, Option.bind_eq_some_iff] at h
      obtain ⟨_, -, _, -, _, -, _, -, h⟩ := h
      exact (Prod.mk.inj (Option.some.inj h)).2
    subst hrest
    exact ⟨[a, b, c, d], rfl⟩
  · cases h

theorem suffix_joinHalves (unit : Nat) (cs : List Char) : (joinHalves unit cs).2 <:+ cs := by
  unfold joinHalves
  split
  · split
    · next more =>
      split
      · next low rest hunit =>
        split
        · exact (suffix_codeUnit? hunit).trans ⟨['\\', 'u'], rfl⟩
        · exact List.suffix_rfl
      · exact List.suffix_rfl
    · exact List.suffix_rfl
  · split <;> exact List.suffix_rfl

theorem within_readString (start : List Char) (fuel : Nat) (done cs : List Char) :
    Within cs (readString start fuel done cs) := by
  induction fuel generalizing done cs with
  | zero => trivial
  | succ fuel ih =>
    unfold readString
    split
    · trivial
    · exact List.suffix_cons _ _
    · trivial
    · next rest =>
      split
      · trivial
      · next unit more hunit =>
        split
        · trivial
        · refine (ih _ _).of_suffix ((suffix_joinHalves unit more).trans ?_)
          exact (suffix_codeUnit? hunit).trans ⟨['\\', 'u'], rfl⟩
    · next e rest _ =>
      split
      · trivial
      · exact (ih _ _).of_suffix ⟨['\\', e], rfl⟩
    · split
      · trivial
      · exact (ih _ _).of_suffix (List.suffix_cons _ _)

theorem suffix_fractionDigits (cs : List Char) : (fractionDigits cs).2 <:+ cs := by
  unfold fractionDigits
  split
  · next d rest =>
    split
    · exact (List.dropWhile_suffix _).trans ⟨['.', d], rfl⟩
    · exact List.suffix_rfl
  · exact List.suffix_rfl

theorem suffix_exponent? (cs : List Char) : (exponent? cs).2 <:+ cs := by
  unfold exponent?
  split
  · next e rest =>
    split
    · have hafter (p : Bool × List Char) (hp : p.2 <:+ rest) :
          (if (p.2.takeWhile Char.isDigit).isEmpty then (none, e :: rest)
            else (some (if p.1 then -(digitsValue (p.2.takeWhile Char.isDigit) : Int)
              else digitsValue (p.2.takeWhile Char.isDigit)), p.2.dropWhile Char.isDigit)).2 <:+
            e :: rest := by
        split
        · exact List.suffix_rfl
        · exact ((List.dropWhile_suffix _).trans hp).trans (List.suffix_cons _ _)
      refine hafter _ ?_
      split
      · exact List.suffix_cons _ _
      · exact List.suffix_cons _ _
      · exact List.suffix_rfl
    · exact List.suffix_rfl
  · exact List.suffix_rfl

theorem within_readNumber (negative : Bool) (start cs : List Char) :
    Within cs (readNumber negative start cs) := by
  unfold readNumber
  split
  · trivial
  · next d rest =>
    split
    · next hd =>
      have hrest : (if d = '0' then rest else rest.dropWhile Char.isDigit) <:+ d :: rest := by
        split
        · exact List.suffix_cons _ _
        · exact (List.dropWhile_suffix _).trans (List.suffix_cons _ _)
      have hwhole : Json.digitLimit <
          (if d = '0' then ['0'] else d :: rest.takeWhile Char.isDigit).length →
          HasLongNumber (d :: rest) := by
        intro hlong
        split at hlong
        · exact absurd hlong (by decide)
        · exact hasLongNumber_takeWhile (by rwa [List.takeWhile_cons_of_pos hd])
      have hafter := (suffix_exponent? _).trans ((suffix_fractionDigits _).trans hrest)
      generalize (if d = '0' then rest else rest.dropWhile Char.isDigit) = more at hafter
      generalize (if d = '0' then ['0'] else d :: rest.takeWhile Char.isDigit) = whole at hwhole
      dsimp only
      split
      · split
        · next hlong => exact hwhole hlong
        · exact hafter
      · exact hafter
    · trivial

theorem within_readScalar (cs : List Char) : Within cs (readScalar cs) := by
  unfold readScalar
  split
  · exact List.drop_suffix _ _
  · split
    · exact (within_readNumber ..).of_suffix (List.suffix_cons _ _)
    · exact within_readNumber ..

mutual

theorem within_readValue : ∀ (fuel : Nat) (cs : List Char), Within cs (readValue fuel cs)
  | 0, _ => trivial
  | fuel + 1, cs => by
    unfold readValue
    split
    · refine ((within_readString ..).bind fun _ _ h => ?_).of_suffix (List.suffix_cons _ _)
      exact List.suffix_rfl
    · next rest =>
      split
      · next more hmore => exact (suffix_of_skipBlanks hmore).trans (List.suffix_cons _ _)
      · have hskip := (suffix_skipBlanks rest).trans (List.suffix_cons '[' rest)
        refine ((within_readItems fuel _).bind fun _ _ _ => ?_).of_suffix hskip
        exact List.suffix_rfl
    · next rest =>
      split
      · next more hmore => exact (suffix_of_skipBlanks hmore).trans (List.suffix_cons _ _)
      · have hskip := (suffix_skipBlanks rest).trans (List.suffix_cons '\x7b' rest)
        refine ((within_readEntries fuel _).bind fun _ _ _ => ?_).of_suffix hskip
        exact List.suffix_rfl
    · exact within_readScalar cs

theorem within_readItems : ∀ (fuel : Nat) (cs : List Char), Within cs (readItems fuel cs)
  | 0, _ => trivial
  | fuel + 1, cs => by
    unfold readItems
    refine (within_readValue fuel cs).bind fun x rest _ => ?_
    dsimp only
    split
    · next more hmore => exact suffix_of_skipBlanks hmore
    · next more hmore =>
      have hskip := (suffix_skipBlanks more).trans (suffix_of_skipBlanks hmore)
      refine ((within_readItems fuel _).bind fun _ _ _ => ?_).of_suffix hskip
      exact List.suffix_rfl
    · trivial

theorem within_readEntries : ∀ (fuel : Nat) (cs : List Char), Within cs (readEntries fuel cs)
  | 0, _ => trivial
  | fuel + 1, cs => by
    unfold readEntries
    split
    · next rest =>
      refine ((within_readString ..).bind fun k rest _ => ?_).of_suffix (List.suffix_cons _ _)
      dsimp only
      split
      · next more hcolon =>
        have hskip := (suffix_skipBlanks more).trans (suffix_of_skipBlanks hcolon)
        refine ((within_readValue fuel _).bind fun v rest _ => ?_).of_suffix hskip
        dsimp only
        split
        · next more hmore => exact suffix_of_skipBlanks hmore
        · next more hmore =>
          have hskip := (suffix_skipBlanks more).trans (suffix_of_skipBlanks hmore)
          refine ((within_readEntries fuel _).bind fun _ _ _ => ?_).of_suffix hskip
          exact List.suffix_rfl
        · trivial
      · trivial
    · trivial

end

/-- A text without long numbers is read as JSON or has a fault of syntax. -/
theorem hasLongNumber_of_read {s : String} (h : read s = .error .tooManyDigits) :
    HasLongNumber s.toList := by
  unfold read readChars at h
  split at h
  · cases h
  · have hvalue := (within_readValue (2 * s.toList.length + 2) _).of_suffix
      (suffix_skipBlanks s.toList)
    generalize readValue _ _ = x at h hvalue
    rcases x with (_ | _) | ⟨v, rest⟩
    · cases h
    · exact hvalue
    · simp only [bind, Except.bind] at h
      split at h <;> cases h

end Json

end FilterTree
