import FilterTree.Proofs.Yaml.Denoted
import FilterTree.Proofs.Yaml.Numeric

/-! Dates and moments as scalars. What is written of one has the tag for them by its spelling, needs no
quotes although it may have colons in it, and is read as the same date or moment. -/

namespace FilterTree

/-! ### Their texts -/

theorem Date.toList_iso (d : Date) : d.iso.toList =
    (padded 4 d.year).toList ++ '-' :: ((padded 2 d.month).toList ++
      '-' :: (padded 2 d.day).toList) := by
  simp [Date.iso]

namespace Moment

def fractionText (t : Moment) : List Char :=
  if t.micro = 0 then [] else '.' :: (padded 6 t.micro).toList

def zoneText (t : Moment) : List Char :=
  match t.offset with
  | none => []
  | some o => (if o < 0 then '-' else '+') :: ((padded 2 (o.natAbs / 3600000000)).toList ++
      ':' :: (padded 2 (o.natAbs / 60000000 % 60)).toList)

theorem toList_offsetText {o : Int} (h : 60000000 ∣ o) : (offsetText o).toList =
    (if o < 0 then '-' else '+') :: ((padded 2 (o.natAbs / 3600000000)).toList ++
      ':' :: (padded 2 (o.natAbs / 60000000 % 60)).toList) := by
  have hmicro : o.natAbs % 1000000 = 0 := by omega
  have hsecond : o.natAbs / 1000000 % 60 = 0 := by omega
  have hhour : o.natAbs / 1000000 / 3600 = o.natAbs / 3600000000 := by omega
  have hminute : o.natAbs / 1000000 / 60 % 60 = o.natAbs / 60000000 % 60 := by omega
  unfold offsetText
  dsimp only
  rw [hhour, hminute]
  split <;> simp [hmicro, hsecond]

def clockText (t : Moment) : List Char :=
  (padded 2 t.hour).toList ++ ':' :: ((padded 2 t.minute).toList ++
    ':' :: ((padded 2 t.second).toList ++ (t.fractionText ++ t.zoneText)))

theorem toList_iso {t : Moment} (h : ∀ o, t.offset = some o → 60000000 ∣ o) :
    (t.iso " ").toList = t.date.iso.toList ++ ' ' :: t.clockText := by
  have hfraction : (if t.micro = 0 then "" else "." ++ padded 6 t.micro).toList =
      t.fractionText := by
    unfold fractionText
    split <;> simp
  have hzone : ((t.offset.map offsetText).getD "").toList = t.zoneText := by
    unfold zoneText
    cases ho : t.offset with
    | none => rfl
    | some o => exact toList_offsetText (h o ho)
  unfold iso
  dsimp only
  simp only [String.toList_append, hfraction, hzone]
  simp [clockText]

end Moment

namespace Yaml

/-! ### Their parts -/

namespace Stamp

theorem digits?_append {least most : Nat} {ds : List Char} (hds : ∀ c ∈ ds, c.isDigit = true)
    (hlength : ds.length = most) (hleast : least ≤ most) (rest : List Char) :
    digits? least most (ds ++ rest) = some (ds, rest) := by
  have htake : (ds ++ rest).take most = ds := by rw [← hlength, List.take_left]
  have hwhile : ds.takeWhile Char.isDigit = ds := List.takeWhile_eq_self_iff.mpr hds
  unfold digits?
  rw [htake, hwhile]
  dsimp only
  rw [List.drop_left, hlength, if_pos hleast]

theorem digits?_padded (least : Nat) {width n : Nat} (hwidth : 0 < width) (hleast : least ≤ width)
    (hn : n < 10 ^ width) (rest : List Char) :
    digits? least width ((padded width n).toList ++ rest) = some ((padded width n).toList, rest) :=
  digits?_append (fun _ => isDigit_of_mem_padded) (length_padded hwidth hn) hleast rest

theorem some_bind {α β : Type} (a : α) (f : α → Option β) : (some a >>= f) = f a := rfl

theorem after?_cons (c : Char) (rest : List Char) : after? c (c :: rest) = some rest :=
  if_pos rfl

theorem separator?_space {ds : List Char} (hne : ds ≠ []) (hds : ∀ c ∈ ds, c.isDigit = true)
    (rest : List Char) : separator? (' ' :: (ds ++ rest)) = some (ds ++ rest) := by
  obtain ⟨c, ds, rfl⟩ := List.exists_cons_of_ne_nil hne
  have hc := hds c List.mem_cons_self
  have hblank : ¬(decide (c = ' ') || decide (c = '\t')) = true := by
    simp [ne_of_isDigit hc]
  unfold separator?
  dsimp only
  rw [if_neg (by decide), if_pos (by decide), List.cons_append, skipBlanks]
  exact congrArg some (List.dropWhile_cons_of_neg hblank)

def zoneOf (t : Moment) : Option (Option Char × List Char × List Char) :=
  t.offset.map fun o => (some (if o < 0 then '-' else '+'),
    (padded 2 (o.natAbs / 3600000000)).toList, (padded 2 (o.natAbs / 60000000 % 60)).toList)

theorem zone?_zoneText {t : Moment} (h : ∀ o, t.offset = some o → o.natAbs < 86400000000) :
    zone? t.zoneText = some (zoneOf t) := by
  unfold Moment.zoneText zoneOf
  cases ho : t.offset with
  | none => rfl
  | some o =>
    have hbound := h o ho
    have hhour : o.natAbs / 3600000000 < 10 ^ 2 := by omega
    have hminute : o.natAbs / 60000000 % 60 < 10 ^ 2 := by omega
    have hlast := digits?_padded 2 (by decide) (Nat.le_refl 2) hminute []
    rw [List.append_nil] at hlast
    dsimp only [Option.map_some]
    generalize hsign : (if o < 0 then '-' else '+') = sign
    have hsigns : sign = '-' ∨ sign = '+' := by
      rw [← hsign]
      split
      · exact .inl rfl
      · exact .inr rfl
    rcases hsigns with rfl | rfl <;>
    · unfold zone?
      simp [skipBlanks, digits?_padded 1 (by decide) (by decide) hhour, hlast]

theorem beginsWithout_zoneText (t : Moment) : BeginsWithout Char.isDigit t.zoneText := by
  unfold Moment.zoneText
  split
  · exact .nil
  · refine .cons ?_ _
    split <;> rfl

def ofDate (d : Date) : Stamp where
  year := (padded 4 d.year).toList
  month := (padded 2 d.month).toList
  day := (padded 2 d.day).toList
  clock := none
  fraction := []
  zone := none

def ofMoment (t : Moment) : Stamp :=
  { ofDate t.date with
    clock := some ((padded 2 t.hour).toList, (padded 2 t.minute).toList, (padded 2 t.second).toList)
    fraction := if t.micro = 0 then [] else (padded 6 t.micro).toList
    zone := zoneOf t }

theorem bounds_of_isValid {d : Date} (h : d.isValid = true) :
    d.year < 10 ^ 4 ∧ d.month < 10 ^ 2 ∧ d.day < 10 ^ 2 := by
  simp only [Date.isValid, decide_eq_true_eq] at h
  have hdays : Date.daysInMonth d.year d.month ≤ 31 := by
    unfold Date.daysInMonth
    split
    · split <;> decide
    · split <;> decide
  omega

theorem ofChars?_iso {d : Date} (h : d.isValid = true) :
    ofChars? d.iso.toList = some (ofDate d) := by
  obtain ⟨hyear, hmonth, hday⟩ := bounds_of_isValid h
  have hlast := digits?_padded 1 (by decide) (by decide) hday []
  rw [List.append_nil] at hlast
  rw [Date.toList_iso, ofChars?, digits?_padded 4 (by decide) (Nat.le_refl 4) hyear, some_bind]
  dsimp only
  rw [after?_cons, some_bind,
    digits?_padded 1 (by decide) (by decide) hmonth, some_bind]
  dsimp only
  rw [after?_cons, some_bind, hlast, some_bind]
  dsimp only
  rw [List.isEmpty_nil, if_pos rfl, ofDate, Option.pure_def]

theorem tail_cases (t : Moment) :
    (∃ more, t.fractionText ++ t.zoneText = '.' :: more ∧
      more.takeWhile Char.isDigit = (ofMoment t).fraction ∧
      more.dropWhile Char.isDigit = t.zoneText) ∨
    ((∀ more, t.zoneText ≠ '.' :: more) ∧ t.fractionText = [] ∧ (ofMoment t).fraction = []) := by
  unfold Moment.fractionText ofMoment
  dsimp only
  by_cases h : t.micro = 0
  · refine .inr ⟨fun more heq => ?_, if_pos h, if_pos h⟩
    unfold Moment.zoneText at heq
    split at heq
    · cases heq
    · have hsign := (List.cons.inj heq).1
      split at hsign <;> exact absurd hsign (by decide)
  · have hdigits : ∀ c ∈ (padded 6 t.micro).toList, c.isDigit = true := fun _ =>
      isDigit_of_mem_padded
    rw [if_neg h, if_neg h]
    exact .inl ⟨_, rfl, (beginsWithout_zoneText t).takeWhile_append hdigits,
      (beginsWithout_zoneText t).dropWhile_append hdigits⟩

theorem ofChars?_moment {t : Moment} (h : t.isValid = true)
    (hoffset : ∀ o, t.offset = some o → 60000000 ∣ o) :
    ofChars? (t.iso " ").toList = some (ofMoment t) := by
  simp only [Moment.isValid, Bool.and_eq_true, decide_eq_true_eq] at h
  obtain ⟨⟨hdate, hhour, hminute, hsecond, -⟩, hzone⟩ := h
  obtain ⟨hyear, hmonth, hday⟩ := bounds_of_isValid hdate
  have hnear : ∀ o, t.offset = some o → o.natAbs < 86400000000 := fun o ho => by
    rw [ho] at hzone
    exact of_decide_eq_true hzone
  have hhour : t.hour < 10 ^ 2 := by omega
  have hminute : t.minute < 10 ^ 2 := by omega
  have hsecond : t.second < 10 ^ 2 := by omega
  have hne : (padded 2 t.hour).toList ≠ [] := by
    obtain ⟨c, cs, hcons, -⟩ := exists_padded_cons 2 t.hour
    rw [hcons]
    exact List.cons_ne_nil c cs
  rw [Moment.toList_iso hoffset, Moment.clockText, Date.toList_iso, ofChars?, List.append_assoc,
    digits?_padded 4 (by decide) (Nat.le_refl 4) hyear]
  simp only [List.cons_append, List.append_assoc]
  rw [some_bind]
  dsimp only
  rw [after?_cons, some_bind, digits?_padded 1 (by decide) (by decide) hmonth, some_bind]
  dsimp only
  rw [after?_cons, some_bind, digits?_padded 1 (by decide) (by decide) hday, some_bind]
  dsimp only
  rw [List.isEmpty_cons, if_neg Bool.false_ne_true, separator?_space hne fun _ => isDigit_of_mem_padded,
    some_bind, digits?_padded 1 (by decide) (by decide) hhour, some_bind]
  dsimp only
  rw [after?_cons, some_bind, digits?_padded 2 (by decide) (Nat.le_refl 2) hminute, some_bind]
  dsimp only
  rw [after?_cons, some_bind, digits?_padded 2 (by decide) (Nat.le_refl 2) hsecond, some_bind]
  dsimp only
  rcases tail_cases t with ⟨more, htail, hfraction, hrest⟩ | ⟨hno, htail, hfraction⟩
  · rw [htail]
    simp only [hfraction, hrest, zone?_zoneText hnear, some_bind, ofMoment, ofDate,
      Option.pure_def]
  · rw [htail, List.nil_append]
    split
    · next more heq => exact absurd heq (hno more)
    · rw [← hfraction]
      simp only [zone?_zoneText hnear, some_bind, ofMoment, ofDate, Option.pure_def]

end Stamp

/-! ### Their spelling -/

namespace Spelling
variable {year : List Char} (hyear : ∀ c ∈ year, c.isDigit = true) (hne : year ≠ [])
include hyear

theorem dropWhile_year (rest : List Char) :
    (year ++ '-' :: rest).dropWhile isDigitOrBar = '-' :: rest :=
  BeginsWithout.dropWhile_append (.cons rfl _) fun c hc => isDigitOrBar_of_isDigit (hyear c hc)

include hne

theorem afterSign_year (rest : List Char) : afterSign (year ++ rest) = year ++ rest := by
  obtain ⟨a, more, rfl⟩ := List.exists_cons_of_ne_nil hne
  exact Decimal.afterSign_of_isDigit (hyear a List.mem_cons_self) _

theorem not_mem_of_year {words : List String}
    (h : ∀ w ∈ words, w.toList.head?.any Char.isDigit = false) (rest : List Char) :
    String.ofList (year ++ rest) ∉ words := fun hmem => by
  obtain ⟨a, more, rfl⟩ := List.exists_cons_of_ne_nil hne
  have hno := h _ hmem
  rw [String.toList_ofList, List.cons_append, List.head?_cons, Option.any_some,
    hyear a List.mem_cons_self] at hno
  cases hno

theorem contains_year (words : List String)
    (h : ∀ w ∈ words, w.toList.head?.any Char.isDigit = false) (rest : List Char) :
    words.contains (String.ofList (year ++ rest)) = false :=
  Bool.eq_false_iff.mpr fun hmem =>
    not_mem_of_year hyear hne h rest (List.contains_iff_mem.mp hmem)

theorem isFloat_year (rest : List Char) : isFloat (year ++ '-' :: rest) = false := by
  have hnan := contains_year hyear hne [".nan", ".NaN", ".NAN"] (by decide) ('-' :: rest)
  have hinf := contains_year hyear hne [".inf", ".Inf", ".INF"] (by decide) ('-' :: rest)
  have hsixties (n : Nat) : sixties? n ('-' :: rest) = none := by
    cases n <;> rfl
  unfold isFloat
  rw [afterSign_year hyear hne]
  dsimp only
  rw [hnan, hinf]
  obtain ⟨a, more, rfl⟩ := List.exists_cons_of_ne_nil hne
  have ha := hyear a List.mem_cons_self
  have hmore := dropWhile_year (fun c hc => hyear c (List.mem_cons_of_mem a hc)) rest
  rw [List.cons_append]
  split
  · next heq => exact absurd (List.cons.inj heq).1 (ne_of_isDigit ha rfl)
  · simp [hmore, hsixties]

theorem isInt_year (hlength : 1 < year.length) (rest : List Char) :
    isInt (year ++ '-' :: rest) = false := by
  have hsixties (n : Nat) : sixties? n ('-' :: rest) = none := by
    cases n <;> rfl
  unfold isInt
  rw [afterSign_year hyear hne]
  obtain ⟨a, more, rfl⟩ := List.exists_cons_of_ne_nil hne
  obtain ⟨b, more, rfl⟩ := List.exists_cons_of_ne_nil (l := more) (by rintro rfl; simp at hlength)
  have hmore := dropWhile_year (fun c hc => hyear c (List.mem_cons_of_mem a hc)) rest
  have hb := hyear b (List.mem_cons_of_mem a List.mem_cons_self)
  rw [List.cons_append, List.cons_append] at *
  split
  · next heq => exact absurd (List.cons.inj (List.cons.inj heq).2).1 (ne_of_isDigit hb rfl)
  · next heq => exact absurd (List.cons.inj (List.cons.inj heq).2).1 (ne_of_isDigit hb rfl)
  · next heq =>
    obtain rfl := (List.cons.inj heq).2
    exact List.all_eq_false.mpr ⟨'-', by simp, by decide⟩
  · next heq =>
    obtain ⟨rfl, rfl⟩ := List.cons.inj heq
    simp [hmore, hsixties]
  · rfl

end Spelling

/-- What begins with the digits of a year and a hyphen is spelled as nothing but a date or a moment. -/
theorem tagOfSpelling_of_year {year rest : List Char} {t : Stamp}
    (hyear : ∀ c ∈ year, c.isDigit = true) (hlength : 1 < year.length)
    (hnewline : '\n' ∉ year ++ '-' :: rest) (ht : Stamp.ofChars? (year ++ '-' :: rest) = some t)
    (hspelled : t.isSpelledOut = true) :
    tagOfSpelling (String.ofList (year ++ '-' :: rest)) = Tags.timestamp := by
  have hne : year ≠ [] := by
    rintro rfl
    cases hlength
  have hbool : Spelling.isBool (String.ofList (year ++ '-' :: rest)) = false :=
    Spelling.contains_year hyear hne _ (by decide) _
  have hnull : Spelling.isNull (String.ofList (year ++ '-' :: rest)) = false :=
    Spelling.contains_year hyear hne _ (by decide) _
  have hword (words : List String) (h : ∀ w ∈ words, w.toList.head?.any Char.isDigit = false) :=
    Spelling.not_mem_of_year hyear hne h ('-' :: rest)
  have hmerge := hword ["<<"] (by decide)
  have hvalue := hword ["="] (by decide)
  have hindicator := hword ["!", "&", "*"] (by decide)
  unfold tagOfSpelling
  rw [String.toList_ofList, withoutFinalBreak_eq_self hnewline]
  dsimp only
  rw [hbool, Spelling.isFloat_year hyear hne, Spelling.isInt_year hyear hne hlength, hnull,
    Bool.false_and, if_neg Bool.false_ne_true, if_neg Bool.false_ne_true, if_neg Bool.false_ne_true,
    if_neg Bool.false_ne_true, if_neg fun h => hmerge (List.mem_singleton.mpr h),
    if_neg fun h => hvalue (List.mem_singleton.mpr h),
    if_neg fun h => hindicator (List.contains_iff_mem.mp h), ht]
  exact if_pos hspelled

/-! ### Their style -/

section Style
open Decimal (isPart isPart_of_isDigit)

theorem isPart_of_mem_padded {width n : Nat} {c : Char} (h : c ∈ (padded width n).toList) :
    isPart c = true :=
  isPart_of_isDigit (isDigit_of_mem_padded h)

theorem isPart_of_mem_iso {d : Date} {c : Char} (h : c ∈ d.iso.toList) : isPart c = true := by
  rw [Date.toList_iso] at h
  simp only [List.mem_append, List.mem_cons] at h
  rcases h with h | rfl | h | rfl | h
  · exact isPart_of_mem_padded h
  · rfl
  · exact isPart_of_mem_padded h
  · rfl
  · exact isPart_of_mem_padded h

theorem exists_iso_cons (d : Date) : ∃ c cs, d.iso.toList = c :: cs ∧ c.isDigit = true := by
  obtain ⟨c, cs, hcons, hc⟩ := exists_padded_cons 4 d.year
  exact ⟨c, _, by rw [Date.toList_iso, hcons]; rfl, hc⟩

theorem isPart_of_mem_fractionText {t : Moment} {c : Char} (h : c ∈ t.fractionText) :
    isPart c = true := by
  unfold Moment.fractionText at h
  split at h
  · cases h
  · rcases List.mem_cons.mp h with rfl | h
    · rfl
    · exact isPart_of_mem_padded h

theorem isPart_or_of_mem_zoneText {t : Moment} {c : Char} (h : c ∈ t.zoneText) :
    isPart c = true ∨ c = ':' := by
  unfold Moment.zoneText at h
  split at h
  · cases h
  · simp only [List.mem_append, List.mem_cons] at h
    rcases h with rfl | h | rfl | h
    · left
      split <;> rfl
    · exact .inl (isPart_of_mem_padded h)
    · exact .inr rfl
    · exact .inl (isPart_of_mem_padded h)

theorem isPart_or_of_mem_clockText {t : Moment} {c : Char} (h : c ∈ t.clockText) :
    isPart c = true ∨ c = ':' := by
  simp only [Moment.clockText, List.mem_append, List.mem_cons] at h
  rcases h with h | rfl | h | rfl | h | h | h
  · exact .inl (isPart_of_mem_padded h)
  · exact .inr rfl
  · exact .inl (isPart_of_mem_padded h)
  · exact .inr rfl
  · exact .inl (isPart_of_mem_padded h)
  · exact .inl (isPart_of_mem_fractionText h)
  · exact isPart_or_of_mem_zoneText h

theorem ne_nil_clockText (t : Moment) : t.clockText ≠ [] := by
  simp [Moment.clockText]

theorem startsWith_padded (width n : Nat) (rest : List Char) :
    startsWith Char.isDigit ((padded width n).toList ++ rest) = true := by
  obtain ⟨c, cs, hcons, hc⟩ := exists_padded_cons width n
  rw [hcons]
  exact hc

theorem solid_of_isPart {c : Char} (h : isPart c = true) : c ≠ ':' ∧ c ≠ '#' := by
  constructor <;>
  · rintro rfl
    cases h

theorem solid_of_mem_padded {width n : Nat} {c : Char} (h : c ∈ (padded width n).toList) :
    c ≠ ':' ∧ c ≠ '#' :=
  solid_of_isPart (isPart_of_mem_padded h)

namespace Features

theorem hasMark_tail (t : Moment) :
    hasMark ((padded 2 t.second).toList ++ (t.fractionText ++ t.zoneText)) = false := by
  have hfront : ∀ c ∈ (padded 2 t.second).toList ++ t.fractionText, c ≠ ':' ∧ c ≠ '#' :=
    List.forall_mem_append.mpr ⟨fun c => solid_of_mem_padded,
      fun c hc => solid_of_isPart (isPart_of_mem_fractionText hc)⟩
  unfold Moment.zoneText
  split
  · rw [List.append_nil]
    exact hasMark_eq_false hfront
  · next o _ =>
    have hminutes := hasMark_eq_false fun c (hc : c ∈ (padded 2 (o.natAbs / 60000000 % 60)).toList) =>
      solid_of_mem_padded hc
    have hdigit := startsWith_padded 2 (o.natAbs / 60000000 % 60) []
    rw [List.append_nil] at hdigit
    rw [← List.append_assoc, ← List.cons_append, ← List.append_assoc]
    refine hasMark_colon (List.forall_mem_append.mpr ⟨hfront, List.forall_mem_cons.mpr
      ⟨?_, fun c => solid_of_mem_padded⟩⟩) hdigit hminutes
    split <;> decide

theorem hasMark_moment {t : Moment} :
    hasMark (t.date.iso.toList ++ ' ' :: t.clockText) = false := by
  have hminutes : hasMark ((padded 2 t.minute).toList ++ ':' :: ((padded 2 t.second).toList ++
      (t.fractionText ++ t.zoneText))) = false :=
    hasMark_colon (fun c => solid_of_mem_padded) (startsWith_padded _ _ _) (hasMark_tail t)
  rw [Moment.clockText, ← List.cons_append, ← List.append_assoc]
  refine hasMark_colon (List.forall_mem_append.mpr ⟨fun c hc => solid_of_isPart (isPart_of_mem_iso hc),
    List.forall_mem_cons.mpr ⟨by decide, fun c => solid_of_mem_padded⟩⟩)
    (startsWith_padded _ _ _) hminutes

theorem allowsPlain_iso (d : Date) : (ofChars d.iso.toList).allowsPlain = true := by
  obtain ⟨c, cs, hcons, hc⟩ := exists_iso_cons d
  have hall : ∀ c ∈ d.iso.toList, isInline c = true := fun c hc =>
    isInline_of_isPart (isPart_of_mem_iso hc)
  rw [hcons] at hall ⊢
  exact allowsPlain_of_isInline hall (isMark_of_isDigit hc cs) (isDocumentMark_of_isDigit hc cs)

theorem allowsPlain_moment {t : Moment} (h : ∀ o, t.offset = some o → 60000000 ∣ o) :
    (ofChars (t.iso " ").toList).allowsPlain = true := by
  have hwritten {c : Char} (hc : isPart c = true) : isWritable c = true ∧ isFoldBreak c = false := by
    have hinline := isInline_of_isPart hc
    simp only [isInline, Bool.and_eq_true, Bool.not_eq_true'] at hinline
    exact ⟨hinline.1.1.1.1, hinline.1.1.2⟩
  have hall : ∀ c ∈ t.date.iso.toList ++ ' ' :: t.clockText,
      isWritable c = true ∧ isFoldBreak c = false := by
    refine List.forall_mem_append.mpr ⟨fun c hc => hwritten (isPart_of_mem_iso hc),
      List.forall_mem_cons.mpr ⟨by decide, fun c hc => ?_⟩⟩
    rcases isPart_or_of_mem_clockText hc with hpart | rfl
    · exact hwritten hpart
    · decide
  have hlast : (t.date.iso.toList ++ ' ' :: t.clockText).getLast? ≠ some ' ' := by
    obtain ⟨c, cs, hcons⟩ := List.exists_cons_of_ne_nil (ne_nil_clockText t)
    rw [hcons, List.getLast?_append_of_ne_nil _ (List.cons_ne_nil _ _), List.getLast?_cons_cons]
    intro hspace
    have hmem : ' ' ∈ t.clockText := hcons ▸ List.mem_of_getLast? hspace
    rcases isPart_or_of_mem_clockText hmem with hpart | hcolon
    · cases hpart
    · cases hcolon
  have hmarks := hasMark_moment (t := t)
  obtain ⟨c, cs, hcons, hc⟩ := exists_iso_cons t.date
  rw [Moment.toList_iso h]
  rw [hcons, List.cons_append] at hall hlast hmarks ⊢
  exact allowsPlain_of_line (fun d hd => (hall d hd).1) (fun d hd => (hall d hd).2)
    (ne_of_isDigit hc rfl) hlast (isMark_of_isDigit hc _) hmarks (isDocumentMark_of_isDigit hc _)

end Features

end Style

/-! ### Their tags and readings -/

theorem newline_not_mem_iso (d : Date) : '\n' ∉ d.iso.toList := fun hmem => by
  cases isPart_of_mem_iso hmem

theorem newline_not_mem_moment {t : Moment} (h : ∀ o, t.offset = some o → 60000000 ∣ o) :
    '\n' ∉ (t.iso " ").toList := fun hmem => by
  rw [Moment.toList_iso h] at hmem
  rcases List.mem_append.mp hmem with hmem | hmem
  · exact newline_not_mem_iso _ hmem
  rcases List.mem_cons.mp hmem with heq | hmem
  · cases heq
  rcases isPart_or_of_mem_clockText hmem with hpart | hcolon
  · cases hpart
  · cases hcolon

theorem exists_year_iso {d : Date} (h : d.isValid = true) : ∃ year rest,
    d.iso.toList = year ++ '-' :: rest ∧ (∀ c ∈ year, c.isDigit = true) ∧ 1 < year.length := by
  refine ⟨_, _, Date.toList_iso d, fun c => isDigit_of_mem_padded, ?_⟩
  rw [length_padded (by decide) (Stamp.bounds_of_isValid h).1]
  decide

theorem tagOfSpelling_iso {d : Date} (h : d.isValid = true) :
    tagOfSpelling d.iso = Tags.timestamp := by
  obtain ⟨-, hmonth, hday⟩ := Stamp.bounds_of_isValid h
  obtain ⟨year, rest, htext, hyear, hlength⟩ := exists_year_iso h
  have hparts := Stamp.ofChars?_iso h
  have hnewline := newline_not_mem_iso d
  have hspelled : (Stamp.ofDate d).isSpelledOut = true := by
    simp [Stamp.isSpelledOut, Stamp.ofDate, length_padded (by decide : 0 < 2) hmonth,
      length_padded (by decide : 0 < 2) hday]
  rw [htext] at hparts hnewline
  rw [← String.ofList_toList (s := d.iso), htext]
  exact tagOfSpelling_of_year hyear hlength hnewline hparts hspelled

theorem tagOfSpelling_moment {t : Moment} (h : t.isValid = true)
    (hoffset : ∀ o, t.offset = some o → 60000000 ∣ o) :
    tagOfSpelling (t.iso " ") = Tags.timestamp := by
  have hdate : t.date.isValid = true := by
    simp only [Moment.isValid, Bool.and_eq_true] at h
    exact h.1.1
  obtain ⟨year, rest, htext, hyear, hlength⟩ := exists_year_iso hdate
  have hparts := Stamp.ofChars?_moment h hoffset
  have hnewline := newline_not_mem_moment hoffset
  have hwhole : (t.iso " ").toList = year ++ '-' :: (rest ++ ' ' :: t.clockText) := by
    rw [Moment.toList_iso hoffset, htext, List.append_assoc, List.cons_append]
  rw [hwhole] at hparts hnewline
  rw [← String.ofList_toList (s := t.iso " "), hwhole]
  exact tagOfSpelling_of_year hyear hlength hnewline hparts rfl

namespace Scalar

theorem readTimestamp_iso {d : Date} (h : d.isValid = true) (serial : Nat) :
    readTimestamp serial d.iso = .ok (.date d (some serial)) := by
  have hparts := Stamp.ofChars?_iso h
  unfold readTimestamp
  rw [withoutFinalBreak_eq_self (newline_not_mem_iso d), hparts]
  simp only [Stamp.ofDate, digitsValue_padded, h, if_true]

theorem micros_of_length {ds : List Char} (h : ds.length = 6) : micros ds = digitsValue ds := by
  have hne : ds.isEmpty = false := by
    cases ds with
    | nil => cases h
    | cons c cs => rfl
  have htake : (ds ++ List.replicate 6 '0').take 6 = ds := by
    rw [← h, List.take_left]
  unfold micros
  rw [hne, if_neg Bool.false_ne_true, htake]

theorem micros_fraction {t : Moment} (h : t.micro < 10 ^ 6) :
    micros (Stamp.ofMoment t).fraction = t.micro := by
  unfold Stamp.ofMoment
  dsimp only
  split
  · next hzero => rw [hzero, micros, List.isEmpty_nil, if_pos rfl]
  · rw [micros_of_length (length_padded (by decide) h), digitsValue_padded]

theorem offsetOf_zoneOf {t : Moment} (h : ∀ o, t.offset = some o → 60000000 ∣ o) :
    offsetOf (Stamp.zoneOf t) = t.offset := by
  unfold Stamp.zoneOf
  cases ho : t.offset with
  | none => rfl
  | some o =>
    have hminutes := h o ho
    have hcount : (o.natAbs / 3600000000 * 3600 + o.natAbs / 60000000 % 60 * 60) * 1000000 =
        o.natAbs := by omega
    simp only [Option.map_some, offsetOf, digitsValue_padded, hcount]
    by_cases hsign : o < 0
    · rw [if_pos hsign, if_pos rfl, Int.ofNat_natAbs_of_nonpos (by omega), Int.neg_neg]
    · rw [if_neg hsign, if_neg (by decide), Int.natAbs_of_nonneg (by omega)]

theorem readTimestamp_moment {t : Moment} (h : t.isValid = true)
    (hoffset : ∀ o, t.offset = some o → 60000000 ∣ o) (serial : Nat) :
    readTimestamp serial (t.iso " ") = .ok (.moment t (some serial)) := by
  have hparts := Stamp.ofChars?_moment h hoffset
  have hmicro : t.micro < 10 ^ 6 := by
    simp only [Moment.isValid, Bool.and_eq_true, decide_eq_true_eq] at h
    omega
  have hfraction := micros_fraction hmicro
  have hzone := offsetOf_zoneOf hoffset
  unfold readTimestamp
  rw [withoutFinalBreak_eq_self (newline_not_mem_moment hoffset), hparts]
  dsimp only
  rw [hfraction]
  simp only [Stamp.ofMoment, Stamp.ofDate, digitsValue_padded, hzone, h, if_true]

theorem read_timestamp (serial : Nat) (text : String) :
    read serial Tags.timestamp text = readTimestamp serial text := by
  unfold read
  rw [if_neg (by decide), if_neg (by decide), if_neg (by decide), if_neg (by decide),
    if_neg (by decide), if_neg (by decide), if_pos rfl]

/-- A date has the tag of one, and is read as itself. -/
theorem isReading_iso {d : Date} (h : d.isValid = true) :
    IsReading Tags.timestamp d.iso fun v => ∃ serial, v = .date d serial := by
  refine ⟨by decide, fun serial => ⟨.date d (some serial), ?_, ?_, some serial, rfl⟩⟩
  · rw [read_timestamp, readTimestamp_iso h]
  · exact Value.IsAtom.same_self h nofun

theorem isReading_moment {t : Moment} (h : t.isValid = true)
    (hoffset : ∀ o, t.offset = some o → 60000000 ∣ o) :
    IsReading Tags.timestamp (t.iso " ") fun v => ∃ serial, v = .moment t serial := by
  refine ⟨by decide, fun serial => ⟨.moment t (some serial), ?_, ?_, some serial, rfl⟩⟩
  · rw [read_timestamp, readTimestamp_moment h hoffset]
  · exact Value.IsAtom.same_self ⟨h, hoffset⟩ nofun

end Scalar

end Yaml

end FilterTree
