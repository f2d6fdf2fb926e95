import FilterTree.Proofs.Yaml.Escaped
import FilterTree.Proofs.Yaml.Plain
import FilterTree.Proofs.Yaml.Single

/-! Scalars in the style that is chosen for them, and what reading makes of their texts. -/

namespace FilterTree.Yaml

/-- What is written of a scalar, with the text that it is read as and whether it stands without
quotes. -/
inductive Inks (column : Nat) : List Char → String → Bool → Prop
  | plain {w s : List Char} (h : Woven column w s)
      (hstart : ∀ ch more, w = ch :: more → Features.isMark ch more = false) :
      Inks column w (String.ofList s) true
  | quoted {double : Bool} {w s : List Char} (h : Quotes double w s) :
      Inks column (quoteMark double :: (w ++ [quoteMark double])) (String.ofList s) false

theorem Inks.ne_nil {column : Nat} {w : List Char} {text : String} {isPlain : Bool}
    (h : Inks column w text isPlain) : w ≠ [] := by
  cases h with
  | plain h _ =>
    obtain ⟨c, more, rfl, -⟩ := h.exists_cons
    exact List.cons_ne_nil c more
  | quoted => exact List.cons_ne_nil _ _

theorem Woven.isAllowed {column : Nat} {w s : List Char} (h : Woven column w s) :
    ∀ c ∈ w, isAllowed c = true := by
  induction h with
  | word hword => exact fun c hc => isAllowed_of_isWritable (hword.writable c hc)
  | spaces hword _ _ ih =>
    exact List.forall_mem_append.mpr
      ⟨fun c hc => isAllowed_of_isWritable (hword.writable c hc), isAllowed_spaces _ ih⟩
  | fold hword _ ih =>
    exact List.forall_mem_append.mpr
      ⟨fun c hc => isAllowed_of_isWritable (hword.writable c hc), isAllowed_line _ ih⟩

theorem Inks.isAllowed {column : Nat} {w : List Char} {text : String} {isPlain : Bool}
    (h : Inks column w text isPlain) : ∀ c ∈ w, isAllowed c = true := by
  cases h with
  | plain h _ => exact h.isAllowed
  | @quoted double w s h =>
    have hmark : Yaml.isAllowed (quoteMark double) = true := by cases double <;> rfl
    exact List.forall_mem_cons.mpr ⟨hmark, List.forall_mem_append.mpr
      ⟨h.isAllowed, List.forall_mem_singleton.mpr hmark⟩⟩

namespace Features

theorem isMark_of_startsBlank {ch : Char} {v w : List Char} (h : isMark ch v = false)
    (hw : startsBlank w = true → startsBlank v = true) : isMark ch w = false := by
  unfold isMark at h ⊢
  cases hblank : startsBlank w with
  | true => rwa [hw hblank] at h
  | false =>
    rw [(Bool.or_eq_false_iff.mp h).1]
    simp

theorem isMark_append {ch : Char} {more : List Char} (h : isMark ch more = false) (v : List Char) :
    isMark ch (more ++ v) = false := by
  refine isMark_of_startsBlank h fun hblank => ?_
  cases more with
  | nil => rfl
  | cons d more => exact hblank

variable {cs : List Char}

theorem foldable_of_allowsSingle (h : (ofChars cs).allowsSingle = true) : Foldable cs := by
  cases cs with
  | nil => exact ⟨rfl, rfl, nofun⟩
  | cons c cs =>
    simp only [ofChars, Bool.and_eq_true, Bool.not_eq_true', Bool.or_eq_false_iff,
      Bool.not_eq_false'] at h
    exact ⟨h.1, h.2.1, List.all_eq_true.mp h.2.2⟩

theorem startsBlank_of_woven {column : Nat} {ch : Char} {w s : List Char}
    (h : Woven column (ch :: w) s) :
    ∃ t, s = ch :: t ∧ (startsBlank w = true → startsBlank t = true) := by
  generalize hcs : ch :: w = cs at h
  cases h with
  | word hword => exact ⟨w, hcs.symm, id⟩
  | spaces hword hn _ =>
    obtain ⟨d, more, rfl, -⟩ := hword.exists_cons
    obtain ⟨n, rfl⟩ := Nat.exists_eq_add_one_of_ne_zero (Nat.ne_of_gt hn)
    cases hcs
    cases more with
    | nil => exact ⟨_, rfl, fun _ => rfl⟩
    | cons e more => exact ⟨_, rfl, id⟩
  | fold hword _ =>
    obtain ⟨d, more, rfl, -⟩ := hword.exists_cons
    cases hcs
    cases more with
    | nil => exact ⟨_, rfl, fun _ => rfl⟩
    | cons e more => exact ⟨_, rfl, id⟩

theorem plainable_of_allowsPlain (hne : cs ≠ []) (h : (ofChars cs).allowsPlain = true) :
    Plainable cs ∧ ∀ ch more, cs = ch :: more → isMark ch more = false := by
  cases cs with
  | nil => exact absurd rfl hne
  | cons c cs =>
    simp only [ofChars, Bool.and_eq_true, Bool.not_eq_true', Bool.or_eq_false_iff,
      Bool.not_eq_false', decide_eq_false_iff_not] at h
    obtain ⟨⟨⟨⟨⟨⟨⟨hfirst, -⟩, hlast⟩, -⟩, -⟩, -, hwritable⟩, hmultiline⟩, ⟨-, hmark⟩, hmarks⟩ := h
    refine ⟨⟨hne, fun ch hch => ?_, List.all_eq_true.mp hwritable,
      fun h => hfirst (Option.some.inj h), fun h => ?_, ?_⟩, ?_⟩
    · by_cases hspace : ch = ' '
      · exact .inl hspace
      · refine .inr (isWhite_of_isWritable (List.all_eq_true.mp hwritable ch hch) hspace ?_)
        exact Bool.eq_false_iff.mpr (List.any_eq_false.mp hmultiline ch hch)
    · rw [h] at hlast
      exact hlast rfl
    · have hcomment : c ≠ '#' := by
        rintro rfl
        simp [isMark] at hmark
      have hcolon : (decide (c = ':') && startsBlank cs) = false := by
        by_cases hc : c = ':'
        · simpa [isMark, hc] using hmark
        · simp [hc]
      rw [hasMark, hmarks, hcolon]
      simp [hcomment]
    · rintro ch more ⟨⟩
      exact hmark

end Features

namespace Scalar

def reread (s : Scalar) (isKey : Bool) : String :=
  if s.style isKey = .single then String.ofList (relined false s.text.toList) else s.text

structure IsBare (isKey : Bool) (s : Scalar) : Prop where
  asBlock : s.asBlock = false
  untagged : s.needsTag (s.style isKey) = false
  nonempty : s.style isKey = .plain → s.text ≠ ""

def Fits (column : Nat) (isKey : Bool) (s : Scalar) : Prop :=
  s.style isKey = .double → Page.Fits column s.text.toList

variable {s : Scalar} {isKey : Bool}

theorem allowsPlain_of_style (h : s.style isKey = .plain) : s.features.allowsPlain = true := by
  unfold style at h
  dsimp only at h
  split at h
  · next hplain => exact (Bool.and_eq_true_iff.mp hplain).2
  · split at h
    · cases h
    · split at h <;> cases h

theorem allowsSingle_of_style (h : s.style isKey = .single) : s.features.allowsSingle = true := by
  unfold style at h
  dsimp only at h
  split at h
  · cases h
  · split at h
    · cases h
    · split at h
      · next hsingle =>
        exact (Bool.and_eq_true_iff.mp (Bool.and_eq_true_iff.mp hsingle).1).2
      · cases h

theorem style_ne_block (h : s.asBlock = false) : s.style isKey ≠ .block := by
  unfold style
  simp only [h, Bool.false_and, Bool.false_eq_true, if_false]
  split
  · nofun
  · split <;> nofun

theorem scalar_eq (h : s.needsTag (s.style isKey) = false) (column : Nat) (p : Page) :
    p.scalar column isKey s = match s.style isKey with
      | .plain => p.plain column (!isKey) s.text
      | .single => p.single column (!isKey) s.text
      | .double => p.double column (!isKey) s.text
      | .block => p.block column s.text := by
  unfold Page.scalar
  simp only [h]
  rfl

theorem plainable_of_style (h : s.style isKey = .plain) (hne : s.text ≠ "") :
    Plainable s.text.toList ∧ ∀ ch more, s.text.toList = ch :: more →
      Features.isMark ch more = false := by
  refine Features.plainable_of_allowsPlain (fun hnil => hne ?_) (allowsPlain_of_style h)
  exact String.toList_inj.mp hnil

theorem exists_ink {column : Nat} (hcolumn : 0 < column) (h : s.IsBare isKey) (p : Page) :
    ∃ w text, p.Adds (p.gap ++ w) (p.scalar column isKey s) ∧
      (p.scalar column isKey s).atIndent = false ∧ Inks column w text (s.style isKey = .plain) ∧
      (s.Fits column isKey → text = s.reread isKey) := by
  unfold Fits
  rw [scalar_eq h.untagged]
  unfold reread
  cases hstyle : s.style isKey with
  | plain =>
    obtain ⟨hplain, hmark⟩ := plainable_of_style hstyle (h.nonempty hstyle)
    obtain ⟨w, hw, hwoven, -, hindent⟩ := Page.exists_plain column (!isKey) hplain p
    refine ⟨w, _, hw, hindent, .plain hwoven fun ch more hcons => ?_, fun _ =>
      String.ofList_toList⟩
    subst hcons
    obtain ⟨t, ht, hblank⟩ := Features.startsBlank_of_woven hwoven
    exact Features.isMark_of_startsBlank (hmark ch t ht) hblank
  | single =>
    obtain ⟨w, hw, hquotes⟩ := Page.exists_single hcolumn (!isKey)
      (Features.foldable_of_allowsSingle (allowsSingle_of_style hstyle)) p
    exact ⟨_, _, hw, Bool.and_false _, .quoted hquotes, fun _ => rfl⟩
  | double =>
    obtain ⟨w, t, hw, hquotes, hsame⟩ := Page.exists_double hcolumn (!isKey) s.text p
    refine ⟨_, _, hw, Bool.and_false _, .quoted hquotes, fun hfits => ?_⟩
    rw [hsame (hfits rfl)]
    exact String.ofList_toList
  | block => exact absurd hstyle (style_ne_block h.asBlock)

/-! ### Keys on one line -/

def keyInk (s : Scalar) : List Char :=
  match s.style true with
  | .plain => s.text.toList
  | .single => '\'' :: (s.text.toList.flatMap Page.doubledQuote ++ ['\''])
  | _ => '"' :: (s.text.toList.flatMap
      (fun c => if Page.isBare c then [c] else (Page.escaped c).toList) ++ ['"'])

theorem isFoldBreak_of_features (h : s.features.isMultiline = false) :
    ∀ c ∈ s.text.toList, isFoldBreak c = false := by
  unfold features Features.ofChars at h
  intro c hc
  split at h
  · next hnil =>
    rw [hnil] at hc
    cases hc
  · next first rest hcons =>
    exact Bool.eq_false_iff.mpr (List.any_eq_false.mp h c hc)

theorem adds_keyInk (column : Nat) (h : s.IsBare true)
    (hline : s.features.isMultiline = false) (p : Page) :
    p.Adds (p.gap ++ s.keyInk) (p.scalar column true s) := by
  rw [scalar_eq h.untagged]
  unfold keyInk
  cases hstyle : s.style true with
  | plain =>
    obtain ⟨hplain, -⟩ := plainable_of_style hstyle (h.nonempty hstyle)
    obtain ⟨w, hw, -, hkey, -⟩ := Page.exists_plain column false hplain p
    rw [← hkey rfl]
    exact hw
  | single =>
    have hfuel : s.text.toList.length < s.text.length + 1 := by
      rw [String.length_toList]
      omega
    have hruns :=
      Page.singleRuns_key column (s.text.length + 1) true (isFoldBreak_of_features hline)
      hfuel (p.property "'")
    simpa [Page.single] using
      (p.adds_property "'").trans (hruns.trans (Page.adds_mark _ "'" false false))
  | double =>
    have hruns := Page.doubleRuns_key column true [] s.text.toList (p.property "\"")
    simpa [Page.double] using
      (p.adds_property "\"").trans (hruns.trans (Page.adds_mark _ "\"" false false))
  | block => exact absurd hstyle (style_ne_block h.asBlock)

theorem isBreak_of_mem_doubledQuote {c d : Char} (h : isBreak c = false)
    (hd : d ∈ Page.doubledQuote c) : isBreak d = false := by
  unfold Page.doubledQuote at hd
  split at hd
  · have hquote : d = '\'' := by simpa using hd
    rw [hquote]
    rfl
  · rwa [List.mem_singleton.mp hd]

theorem isBreak_of_mem_keyInk (h : s.IsBare true)
    (hline : s.features.isMultiline = false) : ∀ c ∈ s.keyInk, isBreak c = false := by
  unfold keyInk
  cases hstyle : s.style true with
  | plain =>
    obtain ⟨hplain, -⟩ := plainable_of_style hstyle (h.nonempty hstyle)
    intro c hc
    rcases hplain.solid c hc with rfl | hwhite
    · rfl
    · exact (Bool.or_eq_false_iff.mp hwhite).2
  | single =>
    have hfold := Features.foldable_of_allowsSingle (allowsSingle_of_style hstyle)
    have hline := isFoldBreak_of_features hline
    refine List.forall_mem_cons.mpr ⟨rfl, List.forall_mem_append.mpr ⟨fun c hc => ?_, by simp; rfl⟩⟩
    obtain ⟨d, hd, hcd⟩ := List.mem_flatMap.mp hc
    exact isBreak_of_mem_doubledQuote (isBreak_of_isWritable (hfold.writable d hd) (hline d hd)) hcd
  | double =>
    refine List.forall_mem_cons.mpr ⟨rfl, List.forall_mem_append.mpr ⟨fun c hc => ?_, by simp; rfl⟩⟩
    obtain ⟨d, -, hcd⟩ := List.mem_flatMap.mp hc
    split at hcd
    · next hbare =>
      rw [List.mem_singleton.mp hcd]
      exact isBreak_of_isBare hbare
    · exact Page.isBreak_of_mem_escaped hcd
  | block => exact absurd hstyle (style_ne_block h.asBlock)

theorem inks_keyInk {column : Nat} (hcolumn : 0 < column) (h : s.IsBare true)
    (hline : s.features.isMultiline = false) : ∃ text,
    Inks column s.keyInk text (s.style true = .plain) ∧
      (s.Fits column true → text = s.reread true) := by
  obtain ⟨w, text, hw, -, hinks, hsame⟩ := exists_ink hcolumn h Page.empty
  have hkey : s.keyInk = w :=
    List.append_cancel_left ((adds_keyInk column h hline Page.empty).unique hw)
  rw [hkey]
  exact ⟨text, hinks, hsame⟩

end Scalar

end FilterTree.Yaml
