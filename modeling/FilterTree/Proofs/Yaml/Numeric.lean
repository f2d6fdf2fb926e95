import FilterTree.Proofs.Json.Scalar
import FilterTree.Proofs.Yaml.Single
import FilterTree.Yaml.Literal
import FilterTree.Yaml.Sketch

/-! Numbers as scalars. What is written of a number has the tag of its kind by its spelling, needs
no quotes, and is read as the number. -/

namespace FilterTree

namespace Decimal

def pointed (d : Decimal) : Decimal where
  whole := d.whole
  fraction := if d.fraction.isEmpty then ['0'] else d.fraction
  exponent := d.exponent
  isDigit_whole := d.isDigit_whole
  whole_ne := d.whole_ne
  whole_zero := d.whole_zero
  isDigit_fraction c hc := by
    split at hc
    · exact isDigit_of_mem_zero c hc
    · exact d.isDigit_fraction c hc
  isDigit_exponent := d.isDigit_exponent

theorem fraction_pointed (d : Decimal) : d.pointed.fraction ≠ [] := by
  unfold pointed
  dsimp only
  split
  · exact List.cons_ne_nil _ _
  · next h => exact fun hnil => h (List.isEmpty_iff.mpr hnil)

theorem amount_pointed (d : Decimal) : d.pointed.amount = d.amount := by
  unfold pointed amount exponentValue
  dsimp only
  split
  · next h =>
    have hvalue : digitsValue (d.whole ++ ['0']) = 10 * digitsValue d.whole := by
      rw [digitsValue_append]
      rfl
    rw [hvalue, List.isEmpty_iff.mp h, List.append_nil]
    push_cast
    rw [List.length_nil, List.length_singleton, Nat.cast_zero, Nat.cast_one, sub_zero,
      zpow_sub₀ (by norm_num), zpow_one]
    ring
  · rfl

def spelled (d : Decimal) (negative : Bool) : List Char :=
  (if negative then ['-'] else []) ++ d.text

def isPart (c : Char) : Bool :=
  c.isDigit || c = '.' || c = 'e' || c = '-' || c = '+'

variable (d : Decimal) (negative : Bool)

theorem isPart_of_isDigit {c : Char} (h : c.isDigit = true) : isPart c = true := by
  simp [isPart, h]

theorem isPart_of_mem_spelled {c : Char} (h : c ∈ d.spelled negative) : isPart c = true := by
  unfold spelled text fractionText exponentText at h
  simp only [List.mem_append] at h
  rcases h with h | h | h | h
  · cases negative
    · cases h
    · rw [List.mem_singleton.mp h]
      rfl
  · exact isPart_of_isDigit (d.isDigit_whole c h)
  · split at h
    · cases h
    · rcases List.mem_cons.mp h with rfl | h
      · rfl
      · exact isPart_of_isDigit (d.isDigit_fraction c h)
  · split at h
    · cases h
    · next down digits hexponent =>
      rcases List.mem_cons.mp h with rfl | h
      · rfl
      · rcases List.mem_cons.mp h with rfl | h
        · cases down <;> rfl
        · exact isPart_of_isDigit ((d.isDigit_exponent _ hexponent).2 c h)

theorem exists_spelled_cons :
    ∃ c tail, d.spelled negative = c :: tail ∧ (c.isDigit = true ∨ c = '-') := by
  obtain ⟨c, tail, htext, hc⟩ := d.exists_text_cons
  cases negative with
  | true => exact ⟨'-', d.text, rfl, .inr rfl⟩
  | false => exact ⟨c, tail, htext, .inl hc⟩

theorem afterSign_of_isDigit {c : Char} (h : c.isDigit = true) (cs : List Char) :
    Yaml.Spelling.afterSign (c :: cs) = c :: cs := by
  unfold Yaml.Spelling.afterSign
  split
  · next heq => exact absurd (List.cons.inj heq).1 (ne_of_isDigit h rfl)
  · next heq => exact absurd (List.cons.inj heq).1 (ne_of_isDigit h rfl)
  · rfl

theorem afterSign_spelled : Yaml.Spelling.afterSign (d.spelled negative) = d.text := by
  cases negative with
  | true => rfl
  | false =>
    obtain ⟨c, tail, htext, hc⟩ := d.exists_text_cons
    change Yaml.Spelling.afterSign d.text = d.text
    rw [htext]
    exact afterSign_of_isDigit hc tail

theorem text_of_whole {d : Decimal} (hf : d.fraction = []) (he : d.exponent = none) :
    d.text = d.whole := by
  simp [text, fractionText, exponentText, hf, he]

end Decimal

namespace Yaml
open Decimal

/-! ### The texts of doubles -/

namespace Sketch

theorem flatMap_eq_self {cs : List Char} (h : ∀ c ∈ cs, c ≠ 'e') :
    (cs.flatMap fun c => if c = 'e' then ['.', '0', 'e'] else [c]) = cs := by
  induction cs with
  | nil => rfl
  | cons c cs ih =>
    rw [List.flatMap_cons, if_neg (h c List.mem_cons_self),
      ih fun d hd => h d (List.mem_cons_of_mem c hd)]
    rfl

theorem ne_exponentMark {c : Char} (h : c.isDigit = true) : c ≠ 'e' :=
  ne_of_isDigit h rfl

theorem exists_floatText {negative : Bool} {m : Nat} {e : Int}
    (hc : Double.IsCanonical (.finite negative m e)) : ∃ d : Decimal,
    (floatText (.finite negative m e)).toList = d.spelled negative ∧ d.fraction ≠ [] ∧
      d.value negative = .finite negative m e := by
  obtain ⟨d, hd, hfractional, hvalue⟩ := Double.exists_text hc
  refine ⟨d.pointed, ?_, d.fraction_pointed, hvalue _ d.amount_pointed⟩
  change _ = d.spelled negative at hd
  unfold floatText
  dsimp only
  by_cases hf : d.fraction = []
  · -- without a point there is an exponent, and the point goes in front of it
    obtain ⟨⟨down, digits⟩, he⟩ :=
      Option.ne_none_iff_exists'.mp (hfractional.resolve_left (not_not_intro hf))
    have htext : d.text = d.whole ++ 'e' :: (if down then '-' else '+') :: digits := by
      simp [text, fractionText, exponentText, hf, he]
    have hdigits := (d.isDigit_exponent _ he).2
    have hpoint : '.' ∉ d.spelled negative := fun hmem => by
      rw [spelled, htext] at hmem
      rcases List.mem_append.mp hmem with hmem | hmem
      · cases negative <;> simp at hmem
      rcases List.mem_append.mp hmem with hmem | hmem
      · exact absurd (d.isDigit_whole _ hmem) (by decide)
      · cases down <;> simp at hmem <;> exact absurd (hdigits _ hmem) (by decide)
    rw [hd, if_neg (by simpa using hpoint), String.toList_ofList, spelled, htext,
      List.flatMap_append, List.flatMap_append, flatMap_eq_self fun c hc => ?_,
      flatMap_eq_self fun c hc => ne_exponentMark (d.isDigit_whole c hc), List.flatMap_cons,
      List.flatMap_cons, flatMap_eq_self fun c hc => ne_exponentMark (hdigits c hc)]
    · cases down <;> simp [spelled, text, fractionText, exponentText, pointed, hf, he]
    · cases negative
      · cases hc
      · rw [List.mem_singleton.mp hc]
        decide
  · have hpoint : '.' ∈ d.spelled negative := by
      simp [spelled, text, fractionText, hf]
    have hsame : d.pointed.text = d.text := by
      simp [text, fractionText, exponentText, pointed, hf]
    rw [hd, if_pos (by simpa using hpoint), hd, spelled, spelled, hsame]

end Sketch

/-! ### Their spelling -/

theorem withoutFinalBreak_eq_self {cs : List Char} (h : '\n' ∉ cs) : withoutFinalBreak cs = cs := by
  unfold withoutFinalBreak
  split
  · next rest heq => exact absurd (List.mem_reverse.mp (heq ▸ List.mem_cons_self)) h
  · rfl

namespace Spelling
variable (d : Decimal) (negative : Bool)

theorem not_mem_of_spelled {words : List String}
    (h : ∀ w ∈ words, w.toList.head?.any (fun c => c.isDigit || c = '-') = false) :
    String.ofList (d.spelled negative) ∉ words := fun hmem => by
  obtain ⟨c, tail, hcons, hc⟩ := d.exists_spelled_cons negative
  have hno := h _ hmem
  rw [String.toList_ofList, hcons] at hno
  rcases hc with hc | rfl
  · simp [hc] at hno
  · cases hno

theorem isBool_spelled : isBool (String.ofList (d.spelled negative)) = false :=
  Bool.eq_false_iff.mpr fun h =>
    not_mem_of_spelled d negative (by decide) (List.contains_iff_mem.mp h)

theorem text_ne_infinity : [".inf", ".Inf", ".INF"].contains (String.ofList d.text) = false :=
  Bool.eq_false_iff.mpr fun h =>
    not_mem_of_spelled d false (by decide) (List.contains_iff_mem.mp h)

theorem isDigitOrBar_of_isDigit {c : Char} (h : c.isDigit = true) : isDigitOrBar c = true := by
  simp [isDigitOrBar, h]

theorem beginsWithout_exponentText : BeginsWithout isDigitOrBar d.exponentText := by
  unfold exponentText
  split
  · exact .nil
  · exact .cons rfl _

theorem isExponent_exponentText : isExponent d.exponentText = true := by
  unfold exponentText
  split
  · rfl
  · next down digits he =>
    obtain ⟨hne, hdigits⟩ := d.isDigit_exponent _ he
    have hall : consistsOf Char.isDigit digits = true := by
      simpa [consistsOf, hne] using hdigits
    cases down <;> simp [isExponent, hall]

theorem exists_whole : ∃ c more, d.text = c :: (more ++ (d.fractionText ++ d.exponentText)) ∧
    c.isDigit = true ∧ ∀ c ∈ more, isDigitOrBar c = true := by
  obtain ⟨c, more, hwhole⟩ := List.exists_cons_of_ne_nil d.whole_ne
  have hall := d.isDigit_whole
  rw [hwhole] at hall
  refine ⟨c, more, by rw [text, hwhole]; rfl, hall c List.mem_cons_self, fun x hx => ?_⟩
  exact isDigitOrBar_of_isDigit (hall x (List.mem_cons_of_mem c hx))

theorem isFloat_spelled_of_fraction (h : d.fraction ≠ []) :
    isFloat (d.spelled negative) = true := by
  obtain ⟨c, more, htext, hc, hmore⟩ := exists_whole d
  have hfraction : d.fractionText = '.' :: d.fraction := by
    simp [fractionText, h]
  have hpoint : (more ++ ('.' :: (d.fraction ++ d.exponentText))).dropWhile isDigitOrBar =
      '.' :: (d.fraction ++ d.exponentText) :=
    BeginsWithout.dropWhile_append (.cons rfl _) hmore
  have hafter : (d.fraction ++ d.exponentText).dropWhile isDigitOrBar = d.exponentText :=
    (beginsWithout_exponentText d).dropWhile_append fun c hc =>
      isDigitOrBar_of_isDigit (d.isDigit_fraction c hc)
  rw [hfraction, List.cons_append] at htext
  unfold isFloat
  rw [afterSign_spelled, htext]
  simp only [hc, hpoint, hafter, isExponent_exponentText, Bool.and_self, Bool.or_true]

theorem isFloat_spelled_of_whole (hf : d.fraction = []) (he : d.exponent = none) :
    isFloat (d.spelled negative) = false := by
  obtain ⟨c, more, htext, hc, hmore⟩ := exists_whole d
  have hwhole : more.dropWhile isDigitOrBar = [] :=
    List.dropWhile_eq_nil_iff.mpr hmore
  have hnone : d.fractionText ++ d.exponentText = [] := by
    simp [fractionText, exponentText, hf, he]
  have hinfinity := text_ne_infinity d
  have hnan : [".nan", ".NaN", ".NAN"].contains (String.ofList (d.spelled negative)) = false :=
    Bool.eq_false_iff.mpr fun h =>
      not_mem_of_spelled d negative (by decide) (List.contains_iff_mem.mp h)
  rw [hnone, List.append_nil] at htext
  obtain ⟨b, tail, hcons, hb⟩ := d.exists_spelled_cons negative
  have hpoint : b ≠ '.' := by
    rcases hb with hb | rfl
    · exact ne_of_isDigit hb rfl
    · decide
  unfold isFloat
  rw [afterSign_spelled]
  dsimp only
  rw [hnan, hinfinity, hcons, htext]
  dsimp only
  rw [hwhole, hc]
  split
  · next heq => exact absurd (List.cons.inj heq).1 hpoint
  · rfl

theorem isInt_spelled_of_whole (hf : d.fraction = []) (he : d.exponent = none) :
    isInt (d.spelled negative) = true := by
  obtain ⟨c, more, hwhole⟩ := List.exists_cons_of_ne_nil d.whole_ne
  have htext : d.text = c :: more := (text_of_whole hf he).trans hwhole
  have hall := d.isDigit_whole
  rw [hwhole] at hall
  have hmore : more.dropWhile isDigitOrBar = [] := List.dropWhile_eq_nil_iff.mpr fun x hx =>
    isDigitOrBar_of_isDigit (hall x (List.mem_cons_of_mem c hx))
  unfold isInt
  rw [afterSign_spelled, htext]
  by_cases hzero : c = '0'
  · have hlone := d.whole_zero (by rw [hwhole, hzero]; rfl)
    rw [hwhole, hzero] at hlone
    rw [hzero, (List.cons.inj hlone).2]
    rfl
  · split
    · next heq => exact absurd (List.cons.inj heq).1 hzero
    · next heq => exact absurd (List.cons.inj heq).1 hzero
    · next heq => exact absurd (List.cons.inj heq).1 hzero
    · next heq =>
      cases heq
      rw [hmore, hall c List.mem_cons_self]
      rfl
    · next heq => cases heq

end Spelling

section Tags
variable {d : Decimal} {negative : Bool}

theorem not_mem_spelled_newline : '\n' ∉ d.spelled negative := fun h =>
  absurd (d.isPart_of_mem_spelled negative h) (by decide)

theorem tagOfSpelling_of_fraction (h : d.fraction ≠ []) :
    tagOfSpelling (String.ofList (d.spelled negative)) = Tags.float := by
  unfold tagOfSpelling
  rw [String.toList_ofList, withoutFinalBreak_eq_self not_mem_spelled_newline]
  dsimp only
  rw [Spelling.isBool_spelled, if_neg Bool.false_ne_true,
    Spelling.isFloat_spelled_of_fraction d negative h, if_pos rfl]

theorem tagOfSpelling_of_whole (hf : d.fraction = []) (he : d.exponent = none) :
    tagOfSpelling (String.ofList (d.spelled negative)) = Tags.int := by
  unfold tagOfSpelling
  rw [String.toList_ofList, withoutFinalBreak_eq_self not_mem_spelled_newline]
  dsimp only
  rw [Spelling.isBool_spelled, if_neg Bool.false_ne_true,
    Spelling.isFloat_spelled_of_whole d negative hf he, if_neg Bool.false_ne_true,
    Spelling.isInt_spelled_of_whole d negative hf he, if_pos rfl]

end Tags

/-! ### Their style -/

namespace Features

theorem hasMark_eq_false {cs : List Char} (h : ∀ c ∈ cs, c ≠ ':' ∧ c ≠ '#') :
    hasMark cs = false := by
  induction cs with
  | nil => rfl
  | cons c cs ih =>
    have hrest := ih fun d hd => h d (List.mem_cons_of_mem c hd)
    cases cs with
    | nil => rfl
    | cons d more =>
      have hd := h d (List.mem_cons_of_mem c List.mem_cons_self)
      rw [hasMark, hrest]
      simp [hd]

theorem hasMark_colon {v w : List Char} (hv : ∀ c ∈ v, c ≠ ':' ∧ c ≠ '#')
    (hdigit : startsWith Char.isDigit w = true) (hw : hasMark w = false) :
    hasMark (v ++ ':' :: w) = false := by
  cases w with
  | nil => cases hdigit
  | cons d w =>
    have hd : d.isDigit = true := hdigit
    have hsolid : startsBlank (d :: w) = false := by
      simp [startsBlank, isBlank, isBreak, ne_of_isDigit hd]
    have hcolon : hasMark (':' :: d :: w) = false := by
      rw [hasMark, hw]
      simp [ne_of_isDigit hd]
    induction v with
    | nil => exact hcolon
    | cons c v ih =>
      have hmore := ih fun e he => hv e (List.mem_cons_of_mem c he)
      cases v with
      | nil =>
        rw [List.cons_append, List.nil_append, hasMark, hcolon, hsolid]
        simp
      | cons e v =>
        have he := hv e (List.mem_cons_of_mem c List.mem_cons_self)
        rw [List.cons_append] at hmore
        rw [List.cons_append, List.cons_append, hasMark, hmore]
        simp [he]

theorem allowsPlain_of_line {c : Char} {cs : List Char}
    (hwritable : ∀ d ∈ c :: cs, isWritable d = true)
    (hline : ∀ d ∈ c :: cs, isFoldBreak d = false) (hfirst : c ≠ ' ')
    (hlast : (c :: cs).getLast? ≠ some ' ') (hmark : isMark c cs = false)
    (hmarks : hasMark (c :: cs) = false)
    (hdocument : ("---".toList.isPrefixOf (c :: cs) || "...".toList.isPrefixOf (c :: cs)) = false) :
    (ofChars (c :: cs)).allowsPlain = true := by
  obtain ⟨last, hget⟩ : ∃ last, (c :: cs).getLast? = some last :=
    ⟨_, List.getLast?_eq_some_getLast (List.cons_ne_nil c cs)⟩
  have hend : last ≠ ' ' := fun h => hlast (h ▸ hget)
  have hendLine := hline last (List.mem_of_getLast? hget)
  have hmulti : (c :: cs).any isFoldBreak = false :=
    List.any_eq_false.mpr fun d hd => Bool.eq_false_iff.mp (hline d hd)
  have hall : (c :: cs).all isWritable = true := List.all_eq_true.mpr hwritable
  have hbreaks : hasPair isFoldBreak (fun d => decide (d = ' ')) (c :: cs) = false :=
    hasPair_eq_false hline
  have hspaces : hasPair (fun d => decide (d = ' ')) isFoldBreak (c :: cs) = false :=
    hasPair_eq_false_of_second hline
  unfold ofChars
  dsimp only
  simp only [hget, Option.getD_some, hmulti, hall, hbreaks, hspaces, hmarks, hmark, hdocument,
    hline c List.mem_cons_self, hendLine, hfirst, hend, decide_false, Bool.or_self, Bool.not_false,
    Bool.not_true, Bool.and_self]

def isInline (c : Char) : Bool :=
  isWritable c && c ≠ ' ' && !isFoldBreak c && c ≠ ':' && c ≠ '#'

theorem allowsPlain_of_isInline {c : Char} {cs : List Char} (h : ∀ d ∈ c :: cs, isInline d = true)
    (hmark : isMark c cs = false)
    (hdocument : ("---".toList.isPrefixOf (c :: cs) || "...".toList.isPrefixOf (c :: cs)) = false) :
    (ofChars (c :: cs)).allowsPlain = true := by
  simp only [isInline, Bool.and_eq_true, decide_eq_true_eq, Bool.not_eq_true'] at h
  exact allowsPlain_of_line (fun d hd => (h d hd).1.1.1.1) (fun d hd => (h d hd).1.1.2)
    (h c List.mem_cons_self).1.1.1.2
    (fun hlast => (h _ (List.mem_of_getLast? hlast)).1.1.1.2 rfl) hmark
    (hasMark_eq_false fun d hd => ⟨(h d hd).1.2, (h d hd).2⟩) hdocument

theorem isInline_of_isPart {c : Char} (h : isPart c = true) : isInline c = true := by
  simp only [isPart, Bool.or_eq_true, decide_eq_true_eq] at h
  rcases h with (((h | rfl) | rfl) | rfl) | rfl
  · have hbounds := toNat_of_isDigit h
    have hwritable : isWritable c = true := by
      simp only [isWritable, Bool.or_eq_true, Bool.and_eq_true, decide_eq_true_eq]
      omega
    have hbreak : isFoldBreak c = false := by
      simp only [isFoldBreak, Bool.or_eq_false_iff, decide_eq_false_iff_not]
      exact ⟨⟨⟨ne_of_isDigit h rfl, ne_of_isDigit h rfl⟩, ne_of_isDigit h rfl⟩, ne_of_isDigit h rfl⟩
    simp [isInline, hwritable, hbreak, ne_of_isDigit (x := ' ') h rfl,
      ne_of_isDigit (x := ':') h rfl, ne_of_isDigit (x := '#') h rfl]
  all_goals decide

def marks : List Char :=
  ['#', ',', '[', ']', '\x7b', '\x7d', '&', '*', '!', '|', '>', '\'', '"', '%', '@', '`', '?', ':',
    '-']

theorem isMark_of_not_mem {c : Char} (h : c ∉ marks) (rest : List Char) :
    isMark c rest = false := by
  simp only [marks, List.mem_cons, not_or] at h
  simp [isMark, h]

theorem isMark_minus {rest : List Char} (h : startsBlank rest = false) :
    isMark '-' rest = false := by
  rw [isMark, h]
  decide

theorem isMark_of_isDigit {c : Char} (h : c.isDigit = true) (rest : List Char) :
    isMark c rest = false := by
  have hmarks : ∀ d ∈ marks, (!d.isDigit) = true := List.all_eq_true.mp rfl
  refine isMark_of_not_mem (fun hc => ?_) rest
  have hno := hmarks c hc
  rw [h] at hno
  cases hno

theorem isDocumentMark_of_isDigit {c : Char} (h : c.isDigit = true) (rest : List Char) :
    ("---".toList.isPrefixOf (c :: rest) || "...".toList.isPrefixOf (c :: rest)) = false := by
  have hminus := (ne_of_isDigit (x := '-') h rfl).symm
  have hpoint := (ne_of_isDigit (x := '.') h rfl).symm
  simp [List.isPrefixOf, hminus, hpoint]

theorem allowsPlain_spelled (d : Decimal) (negative : Bool) :
    (ofChars (d.spelled negative)).allowsPlain = true := by
  obtain ⟨c, tail, htext, hc⟩ := d.exists_text_cons
  have hall : ∀ c ∈ d.spelled negative, isInline c = true := fun c hc =>
    isInline_of_isPart (d.isPart_of_mem_spelled negative hc)
  cases negative with
  | true =>
    have hcons : d.spelled true = '-' :: c :: tail := congrArg ('-' :: ·) htext
    rw [hcons] at hall ⊢
    refine allowsPlain_of_isInline hall ?_ ?_
    · have hblank : startsBlank (c :: tail) = false := by
        have hwhite := hall c (List.mem_cons_of_mem _ List.mem_cons_self)
        simp only [isInline, Bool.and_eq_true, decide_eq_true_eq, Bool.not_eq_true'] at hwhite
        exact isWhite_of_isWritable hwhite.1.1.1.1 hwhite.1.1.1.2 hwhite.1.1.2
      exact isMark_minus hblank
    · simp [List.isPrefixOf, (ne_of_isDigit (x := '-') hc rfl).symm]
  | false =>
    have hcons : d.spelled false = c :: tail := htext
    rw [hcons] at hall ⊢
    exact allowsPlain_of_isInline hall (isMark_of_isDigit hc tail)
      (isDocumentMark_of_isDigit hc tail)

end Features

/-! ### Their readings -/

namespace Scalar
variable {d : Decimal} {negative : Bool}

theorem isPart_bounds {c : Char} (h : isPart c = true) :
    c.toNat < 0x80 ∧ c.toLower = c ∧ c ≠ '_' ∧ c ≠ ':' ∧ Numeral.isBlank c = false := by
  simp only [isPart, Bool.or_eq_true, decide_eq_true_eq] at h
  rcases h with (((h | rfl) | rfl) | rfl) | rfl
  · have hbounds := toNat_of_isDigit h
    refine ⟨by omega, Double.toLower_of_isDigit h, ne_of_isDigit h rfl, ne_of_isDigit h rfl, ?_⟩
    have hspace := ne_of_isDigit (x := ' ') h rfl
    have hcontrol : ¬ c.toNat ≤ 0xd := by omega
    simp [Numeral.isBlank, hspace, hcontrol]
  all_goals decide

theorem lowerAfter_eq_self {cs : List Char} (h : ∀ c ∈ cs, isPart c = true) (before : List Char) :
    lowerAfter before cs = cs := by
  induction cs generalizing before with
  | nil => rfl
  | cons c cs ih =>
    obtain ⟨hascii, hlower, -⟩ := isPart_bounds (h c List.mem_cons_self)
    have hsigma : c ≠ '\u03a3' := by
      rintro rfl
      exact absurd hascii (by decide)
    rw [lowerAfter, if_neg hsigma, lowerChar, if_pos hascii, hlower,
      ih fun d hd => h d (List.mem_cons_of_mem c hd)]
    rfl

theorem dropWhile_isBlank {cs : List Char} (h : ∀ c ∈ cs, isPart c = true) :
    cs.dropWhile Numeral.isBlank = cs := by
  cases cs with
  | nil => rfl
  | cons c cs =>
    have hblank := (isPart_bounds (h c List.mem_cons_self)).2.2.2.2
    rw [List.dropWhile_cons_of_neg (Bool.eq_false_iff.mp hblank)]

theorem plain_eq_self {cs : List Char} (h : ∀ c ∈ cs, isPart c = true) : Numeral.plain cs = cs := by
  have hmap : cs.map Numeral.plainChar = cs :=
    (List.map_congr_left fun c hc => if_pos (isPart_bounds (h c hc)).1).trans (List.map_id cs)
  unfold Numeral.plain
  dsimp only
  rw [hmap, dropWhile_isBlank h, dropWhile_isBlank fun c hc => h c (List.mem_reverse.mp hc),
    List.reverse_reverse]

theorem isPart_of_mem_text {c : Char} (h : c ∈ d.text) : isPart c = true :=
  d.isPart_of_mem_spelled false h

theorem signed_spelled : signed (String.ofList (d.spelled negative)) = .ok (negative, d.text) := by
  have hbars : (d.spelled negative).filter (· ≠ '_') = d.spelled negative :=
    List.filter_eq_self.mpr fun c hc =>
      decide_eq_true (isPart_bounds (d.isPart_of_mem_spelled negative hc)).2.2.1
  obtain ⟨c, tail, htext, hc⟩ := d.exists_text_cons
  unfold signed
  rw [String.toList_ofList, hbars]
  cases negative with
  | true => rfl
  | false =>
    have hplain : d.spelled false = d.text := rfl
    rw [hplain, htext]
    split
    · next heq => cases heq
    · next heq => exact absurd (List.cons.inj heq).1 (ne_of_isDigit hc rfl)
    · next heq => exact absurd (List.cons.inj heq).1 (ne_of_isDigit hc rfl)
    · rfl

theorem parts_text : parts d.text = [d.text] :=
  List.splitOn_eq_singleton fun h => (isPart_bounds (isPart_of_mem_text h)).2.2.2.1 rfl

theorem readDecimal_text : readDecimal d.text = .ok (.number (d.value false)) := by
  have hread : Reading.ofText? (String.ofList d.text) = some (.number (d.value false)) :=
    Double.ofText?_decimal String.toList_ofList
  rw [readDecimal, plain_eq_self fun c => isPart_of_mem_text, hread]
  rfl

theorem neg_value : (d.value false).neg = d.value true := by
  have hfinite (m : Nat) (e : Int) : (Double.finite false m e).neg = .finite true m e := rfl
  have hinfinite : (Double.infinite false).neg = .infinite true := rfl
  have hratio (num den : Nat) :
      (Double.ofRatio false num den).neg = Double.ofRatio true num den := by
    simp only [Double.ofRatio, apply_ite Double.neg, Double.zero, hfinite, hinfinite]
  simp only [Decimal.value, Double.ofDecimal, apply_ite Double.neg, Double.zero, hratio, hfinite,
    hinfinite]

theorem readFloat_spelled :
    readFloat (String.ofList (d.spelled negative)) = .ok (.float (d.value negative)) := by
  have hlower : lowercase (String.ofList (d.spelled negative)) =
      String.ofList (d.spelled negative) := by
    rw [lowercase, String.toList_ofList,
      lowerAfter_eq_self fun c => d.isPart_of_mem_spelled negative]
  obtain ⟨c, tail, htext, hc⟩ := d.exists_text_cons
  have hpoint : ∀ w : String, w.toList.head? = some '.' → d.text ≠ w.toList := fun w hw heq => by
    rw [← heq, htext] at hw
    exact ne_of_isDigit hc rfl (Option.some.inj hw)
  have hparts : (parts d.text).mapM readDecimal = .ok [.number (d.value false)] := by
    rw [parts_text, List.mapM_cons, readDecimal_text]
    rfl
  unfold readFloat
  rw [hlower, signed_spelled]
  change (if d.text = ".inf".toList then _ else if d.text = ".nan".toList then _ else
    ((parts d.text).mapM readDecimal).bind _) = _
  rw [if_neg (hpoint _ rfl), if_neg (hpoint _ rfl), hparts]
  cases negative with
  | true => exact congrArg (fun x => Except.ok (Value.float x)) neg_value
  | false => rfl

theorem mapM_digitOf? {cs : List Char} (h : ∀ c ∈ cs, c.isDigit = true) :
    cs.mapM (digitOf? 10) = some (cs.map fun c => c.toNat - '0'.toNat) := by
  induction cs with
  | nil => rfl
  | cons c cs ih =>
    have hc := h c List.mem_cons_self
    have hdigit : digitOf? 10 c = some (c.toNat - '0'.toNat) := by
      have hnine := (toNat_of_isDigit hc).2
      have hzero : '0'.toNat = 48 := rfl
      unfold digitOf? hexDigit?
      rw [if_pos hc]
      exact if_pos (by omega)
    rw [List.mapM_cons, hdigit, ih fun d hd => h d (List.mem_cons_of_mem c hd)]
    rfl

theorem wholeNumber?_digits {cs : List Char} (h : ∀ c ∈ cs, c.isDigit = true) (hne : cs ≠ [])
    (hlength : cs.length ≤ 4300) : wholeNumber? 10 cs = some (digitsValue cs : Int) := by
  have hplain := plain_eq_self fun c hc => isPart_of_isDigit (h c hc)
  have hdigits := mapM_digitOf? h
  obtain ⟨c, more, rfl⟩ := List.exists_cons_of_ne_nil hne
  have hc := h c List.mem_cons_self
  have hminus : ¬ (c :: more).head? = some '-' := fun heq =>
    ne_of_isDigit hc rfl (Option.some.inj heq)
  have hvalue : ((c :: more).map fun c => c.toNat - '0'.toNat).foldl (fun n d => 10 * n + d) 0 =
      digitsValue (c :: more) := List.foldl_map
  have hroom : ((c :: more).isEmpty || decide (4300 < (c :: more).length)) = false := by
    simpa using hlength
  unfold wholeNumber?
  rw [hplain]
  dsimp only
  rw [afterSign_of_isDigit hc]
  simp only [hminus, if_false]
  split
  · next m rest heq =>
    have hmark : ¬ (baseMark 10).contains m = true := Bool.false_ne_true
    rw [if_neg hmark, decide_true, Bool.true_and, hroom, if_neg Bool.false_ne_true, hdigits]
    exact congrArg (fun n : Nat => some (n : Int)) hvalue
  · rw [decide_true, Bool.true_and, hroom, if_neg Bool.false_ne_true, hdigits]
    exact congrArg (fun n : Nat => some (n : Int)) hvalue

theorem readInt_spelled (hf : d.fraction = []) (he : d.exponent = none)
    (hlength : d.whole.length ≤ 4300) :
    readInt (String.ofList (d.spelled negative)) =
      .ok (.int (if negative then -(digitsValue d.whole : Int) else digitsValue d.whole)) := by
  have htext := text_of_whole hf he
  have hparts := parts_text (d := d)
  have hnumber := wholeNumber?_digits d.isDigit_whole d.whole_ne hlength
  have hzero := d.whole_zero
  rw [htext] at hparts
  unfold readInt
  rw [signed_spelled, htext]
  change Except.bind _ _ = _
  obtain ⟨c, more, hwhole⟩ := List.exists_cons_of_ne_nil d.whole_ne
  rw [hwhole] at hparts hnumber hzero ⊢
  by_cases hc : c = '0'
  · subst hc
    rw [hzero rfl]
    cases negative <;> rfl
  · have hne (rest : List Char) : c :: more ≠ '0' :: rest := fun heq => hc (List.cons.inj heq).1
    have hmapped : (parts (c :: more)).mapM (fun part => orValue (wholeNumber? 10 part)) =
        .ok [(digitsValue (c :: more) : Int)] := by
      rw [hparts, List.mapM_cons, hnumber]
      rfl
    dsimp only [Except.bind]
    split
    · next heq => cases heq
    · next heq => exact absurd heq (hne _)
    · next heq => exact absurd heq (hne _)
    · next heq => exact absurd heq (hne _)
    · next heq => exact absurd heq (hne _)
    · rw [hmapped]
      simp only [bind, Except.bind, pure, Except.pure, List.foldl_cons, List.foldl_nil, mul_zero,
        zero_add]

end Scalar

end Yaml

end FilterTree
