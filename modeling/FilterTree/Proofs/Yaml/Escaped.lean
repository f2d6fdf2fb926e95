import FilterTree.Proofs.Text.Hex
import FilterTree.Proofs.Yaml.Page
import FilterTree.Proofs.Yaml.Quoted

/-! Texts in double quotes. Every character is read back, also where lines are broken, unless a broken
line would have to begin with a space and the columns leave no room for its escape. -/

namespace FilterTree.Yaml

/-! ### Escapes -/

theorem hexNumber?_hexText {width n : Nat} (hwidth : 0 < width) (hn : n < 16 ^ width) :
    (hexText width n).toUpper.toList.length = width ∧
      hexNumber? width (hexText width n).toUpper.toList = some n := by
  rw [String.toUpper, String.toList_map]
  exact hexNumber?_map_hexText hexDigit?_toUpper_digitChar hwidth hn

theorem charOfCode_toNat (c : Char) : charOfCode c.toNat = .ok c := by
  have hvalid : c.toNat < 0xd800 ∨ 0xdfff < c.toNat ∧ c.toNat < 0x110000 := c.valid
  unfold charOfCode
  rw [if_neg (by omega), if_neg (by omega), if_neg (by omega), Char.ofNat_toNat]

theorem shortEscape?_shortEscape? {c e : Char} (h : Page.shortEscape? c = some e) :
    Quoted.shortEscape? e = some c := by
  unfold Page.shortEscape? at h
  split at h <;> cases h <;> rfl

theorem Quotes.escaped (c : Char) {w s : List Char} (h : Quotes true w s) :
    Quotes true ((Page.escaped c).toList ++ w) (c :: s) := by
  have hvalid : c.toNat < 0xd800 ∨ 0xdfff < c.toNat ∧ c.toNat < 0x110000 := c.valid
  unfold Page.escaped
  split
  · next e he =>
    rw [String.toList_ofList]
    exact .short rfl (shortEscape?_shortEscape? he) h
  · -- the shortest form that has room for the code
    have hcode (mark : Char) (width : Nat) (hwidth : 0 < width) (hroom : c.toNat < 16 ^ width)
        (hmark : Quoted.codeLength? mark = some width) (hshort : Quoted.shortEscape? mark = none) :
        Quotes true ('\\' :: mark :: ((hexText width c.toNat).toUpper.toList ++ w)) (c :: s) := by
      obtain ⟨hlength, hnumber⟩ := hexNumber?_hexText hwidth hroom
      refine .code rfl hshort ?_ ?_ (charOfCode_toNat c) h
      · rw [hlength, hmark]
      · rw [hlength, hnumber]
    dsimp only
    split
    · simpa [String.toList_append] using hcode 'x' 2 (by decide) (by omega) rfl rfl
    · split
      · simpa [String.toList_append] using hcode 'u' 4 (by decide) (by omega) rfl rfl
      · simpa [String.toList_append] using hcode 'U' 8 (by decide) (by omega) rfl rfl

theorem isWhite_of_isBare {c : Char} (h : Page.isBare c = true) (hspace : c ≠ ' ') :
    isWhite c = false := by
  refine Bool.eq_false_iff.mpr fun hwhite => ?_
  rcases cases_of_isWhite hwhite with rfl | rfl | rfl | rfl | rfl | rfl | rfl
  · exact hspace rfl
  all_goals cases h

theorem isBreak_of_isBare {c : Char} (h : Page.isBare c = true) : isBreak c = false := by
  by_cases hspace : c = ' '
  · rw [hspace]
    rfl
  · exact (Bool.or_eq_false_iff.mp (isWhite_of_isBare h hspace)).2

theorem isAllowed_of_isBare {c : Char} (h : Page.isBare c = true) : isAllowed c = true := by
  simp only [Page.isBare, Bool.and_eq_true, Bool.or_eq_true, decide_eq_true_eq] at h
  simp only [isAllowed, Bool.or_eq_true, Bool.and_eq_true, decide_eq_true_eq]
  omega

theorem Quotes.bare {c : Char} (hc : Page.isBare c = true) {w s : List Char} (h : Quotes true w s)
    (hw : startsWith isBreak w = false) : Quotes true (c :: w) (c :: s) := by
  by_cases hspace : c = ' '
  · subst hspace
    exact h.space hw
  · refine .char (isAllowed_of_isBare hc) (isWhite_of_isBare hc hspace) ?_ (fun _ => ?_) h
    · rintro rfl
      cases hc
    · rintro rfl
      cases hc

namespace Page

theorem continueLine_line {p : Page} (h : p.atIndent = false) (column : Nat) (next : Option Char) :
    p.Adds ('\\' :: '\n' :: (List.replicate column ' ' ++ if next = some ' ' then ['\\'] else []))
        (p.continueLine column next) ∧
      (p.continueLine column next).column = (if next = some ' ' then column + 1 else column) ∧
      (p.continueLine column next).atIndent = false := by
  obtain ⟨hadds, hcolumn, hindent⟩ := foldTo_line (p := p.write "\\") h column
  have hadds := (p.adds_write "\\").trans hadds
  unfold continueLine
  split
  · refine ⟨?_, ?_, hindent⟩
    · simpa using hadds.trans (((p.write "\\").foldTo column).adds_write "\\")
    · exact congrArg (· + 1) hcolumn
  · exact ⟨by simpa using hadds, hcolumn, hindent⟩

def Fits (column : Nat) (cs : List Char) : Prop :=
  column < width ∨ Features.hasPair (!isBare ·) (· = ' ') cs = false

theorem Fits.of_cons {column : Nat} {c : Char} {cs : List Char} (h : Fits column (c :: cs)) :
    Fits column cs :=
  h.imp_right fun h => (Bool.or_eq_false_iff.mp h).2

theorem Fits.lt_width {column : Nat} {c : Char} (hc : isBare c = false) {cs : List Char}
    (h : Fits column (c :: ' ' :: cs)) : column < width := by
  rcases h with h | h
  · exact h
  · simp [Features.hasPair, hc, startsWith] at h

structure Escaped (column : Nat) (cs w s : List Char) : Prop where
  quotes : Quotes true w s
  starts : startsWith isBreak w = false
  white : cs.head? ≠ some ' ' → startsWith isWhite w = false
  same : Fits column cs → s = cs

/-- What is written stands for the characters that were left, after those held back. -/
def Escapes (column : Nat) (split : Bool) (cs : List Char) : Prop :=
  ∀ first held (p : Page), p.atIndent = false → ∃ w s,
    p.Adds (held.reverse ++ w) (doubleRuns column split first held cs p) ∧ Escaped column cs w s

theorem startsWith_escaped (c : Char) (w : List Char) :
    startsWith isWhite ((escaped c).toList ++ w) = false := by
  unfold escaped
  split
  · rw [String.toList_ofList]
    rfl
  · simp [startsWith, isWhite, isBlank, isBreak]

/-- A space that comes right after the backslash at the beginning of a line. Where there is no room for
it, the line ends once more, and the backslash there stands for itself. -/
theorem Escapes.space {column : Nat} (hcolumn : 0 < column) {split : Bool} {cs : List Char}
    (h : Escapes column split cs) {p : Page} (hp : p.atIndent = false) :
    ∃ w s, p.Adds w (doubleRuns column split false [] (' ' :: cs) p) ∧ Quotes true ('\\' :: w) s ∧
      (p.column ≤ width → Fits column cs → s = ' ' :: cs) := by
  unfold doubleRuns
  simp only [show isBare ' ' = true from rfl, Bool.not_true, Bool.false_eq_true, if_false]
  split
  · next hfold =>
    obtain ⟨hline, -, hindent⟩ := continueLine_line (p := p.write (String.ofList [].reverse)) hp
      column (some ' ')
    obtain ⟨w, s, hw, hescaped⟩ := h false [' '] _ hindent
    refine ⟨_, '\\' :: ' ' :: ' ' :: s, ((p.adds_ofList [].reverse).trans (hline.trans hw)), ?_,
      fun hroom => ?_⟩
    · have hspace : Quotes true ('\\' :: ' ' :: w) (' ' :: s) :=
        .short (e := ' ') rfl rfl hescaped.quotes
      have hbreak : ∀ b ∈ ['\n'], isFoldBreak b = true := by simp [isFoldBreak]
      have hfolded : Quotes true _ _ := .breaks hbreak hcolumn rfl hspace
      simpa [fold, asBreak] using Quotes.short (e := '\\') rfl rfl hfolded
    · simp at hfold
      omega
  · obtain ⟨w, s, hw, hescaped⟩ := h false [' '] p hp
    refine ⟨' ' :: w, ' ' :: s, by simpa using hw, .short (e := ' ') rfl rfl hescaped.quotes, ?_⟩
    exact fun _ hfits => congrArg (' ' :: ·) (hescaped.same hfits)

theorem escapes_cons_of_isBare {column : Nat} (hcolumn : 0 < column) {split : Bool} {c : Char}
    (hc : isBare c = true) {cs : List Char} (h : Escapes column split cs) :
    Escapes column split (c :: cs) := by
  intro first held p hp
  unfold doubleRuns
  simp only [hc, Bool.not_true, Bool.false_eq_true, if_false]
  split
  · -- the line is broken before the character
    obtain ⟨hline, -, hindent⟩ := continueLine_line (p := p.write (String.ofList held.reverse)) hp
      column (some c)
    obtain ⟨w, s, hw, hescaped⟩ := h false [c] _ hindent
    have hsame (hfits : Fits column (c :: cs)) : c :: s = c :: cs := by
      rw [hescaped.same hfits.of_cons]
    refine ⟨_, c :: s, ((p.adds_ofList held.reverse).trans (hline.trans hw)), ?_, rfl, fun _ => rfl,
      hsame⟩
    by_cases hspace : c = ' '
    · subst hspace
      simpa using Quotes.line rfl hcolumn rfl (.short (e := ' ') rfl rfl hescaped.quotes)
    · have hwhite := isWhite_of_isBare hc hspace
      simpa [hspace] using Quotes.line rfl hcolumn (w := c :: w) hwhite
        (hescaped.quotes.bare hc hescaped.starts)
  · obtain ⟨w, s, hw, hescaped⟩ := h false (c :: held) p hp
    refine ⟨c :: w, c :: s, by simpa using hw, hescaped.quotes.bare hc hescaped.starts, ?_,
      fun hspace => ?_, fun hfits => by rw [hescaped.same hfits.of_cons]⟩
    · by_cases hspace : c = ' '
      · rw [hspace]
        rfl
      · exact (Bool.or_eq_false_iff.mp (isWhite_of_isBare hc hspace)).2
    · exact isWhite_of_isBare hc fun h => hspace (congrArg some h)

theorem escapes_cons_of_not_isBare {column : Nat} (hcolumn : 0 < column) {split : Bool} {c : Char}
    (hc : isBare c = false) {cs : List Char} (h : Escapes column split cs)
    (hspace : ∀ more, cs = ' ' :: more → Escapes column split more) :
    Escapes column split (c :: cs) := by
  intro first held p hp
  have hadds := (p.adds_ofList held.reverse).trans
    ((p.write (String.ofList held.reverse)).adds_write (escaped c))
  have hmade {w s : List Char} (hquotes : Quotes true w s) (hsame : Fits column (c :: cs) → s = cs) :
      Escaped column (c :: cs) ((escaped c).toList ++ w) (c :: s) :=
    ⟨hquotes.escaped c, startsWith_isBreak (startsWith_escaped c w), fun _ => startsWith_escaped c w,
      fun hfits => by rw [hsame hfits]⟩
  unfold doubleRuns
  simp only [hc, Bool.not_false, if_true]
  split
  · obtain ⟨hline, hroom, hindent⟩ := continueLine_line
      (p := (p.write (String.ofList held.reverse)).write (escaped c)) hp column cs.head?
    by_cases hnext : cs.head? = some ' '
    · obtain ⟨more, rfl⟩ := List.head?_eq_some_iff.mp hnext
      rw [if_pos hnext] at hline hroom
      obtain ⟨w, s, hw, hquotes, hsame⟩ := (hspace more rfl).space hcolumn hindent
      refine ⟨_, c :: s, by simpa using hadds.trans (hline.trans hw), hmade ?_ fun hfits => ?_⟩
      · simpa using Quotes.line rfl hcolumn (w := '\\' :: w) rfl hquotes
      · have hwidth := hfits.lt_width hc
        exact hsame (by omega) hfits.of_cons.of_cons
    · rw [if_neg hnext] at hline hroom
      obtain ⟨w, s, hw, hescaped⟩ := h false [] _ hindent
      refine ⟨_, c :: s, by simpa using hadds.trans (hline.trans hw), hmade ?_ fun hfits =>
        hescaped.same hfits.of_cons⟩
      simpa [hnext] using Quotes.line rfl hcolumn (hescaped.white hnext) hescaped.quotes
  · obtain ⟨w, s, hw, hescaped⟩ :=
      h false [] ((p.write (String.ofList held.reverse)).write (escaped c)) hp
    exact ⟨_, c :: s, by simpa using hadds.trans hw,
      hmade hescaped.quotes fun hfits => hescaped.same hfits.of_cons⟩

theorem escapes {column : Nat} (hcolumn : 0 < column) (split : Bool) :
    ∀ cs : List Char, Escapes column split cs
  | [] => fun _ held p _ => ⟨[], [], by simpa [doubleRuns] using p.adds_ofList held.reverse, .nil, rfl,
      fun _ => rfl, fun _ => rfl⟩
  | c :: cs => by
    have h := escapes hcolumn split cs
    cases hc : isBare c with
    | true => exact escapes_cons_of_isBare hcolumn hc h
    | false =>
      refine escapes_cons_of_not_isBare hcolumn hc h fun more hmore => ?_
      subst hmore
      exact escapes hcolumn split more

/-- What double quotes enclose is read back, and as the text itself where it fits. -/
theorem exists_double {column : Nat} (hcolumn : 0 < column) (split : Bool) (text : String)
    (p : Page) : ∃ w s,
    p.Adds (p.gap ++ '"' :: (w ++ ['"'])) (double column split text p) ∧ Quotes true w s ∧
      (Fits column text.toList → s = text.toList) := by
  obtain ⟨w, s, hw, hescaped⟩ := escapes hcolumn split text.toList true [] (p.property "\"")
    (Bool.and_false _)
  refine ⟨w, s, ?_, hescaped.quotes, hescaped.same⟩
  simpa [double] using (p.adds_property "\"").trans (hw.trans (adds_mark _ "\"" false false))

theorem doubleRuns_key (column : Nat) (first : Bool) (held cs : List Char) (p : Page) :
    p.Adds (held.reverse ++ cs.flatMap fun c => if isBare c then [c] else (escaped c).toList)
      (doubleRuns column false first held cs p) := by
  induction cs generalizing first held p with
  | nil => simpa [doubleRuns] using p.adds_ofList held.reverse
  | cons c cs ih =>
    unfold doubleRuns
    cases hc : isBare c with
    | true => simpa [hc] using ih false (c :: held) p
    | false =>
      have hadds := (p.adds_ofList held.reverse).trans
        ((p.write (String.ofList held.reverse)).adds_write (escaped c))
      simpa [hc] using hadds.trans (ih false [] _)

theorem isBreak_of_hexDigit? {c : Char} (h : hexDigit? c ≠ none) : isBreak c = false := by
  refine Bool.eq_false_iff.mpr fun hbreak => h ?_
  rcases cases_of_isBreak hbreak with rfl | rfl | rfl | rfl | rfl <;> rfl

theorem isBreak_of_mem_escaped {c d : Char} (h : d ∈ (escaped c).toList) : isBreak d = false := by
  have hvalid : c.toNat < 0xd800 ∨ 0xdfff < c.toNat ∧ c.toNat < 0x110000 := c.valid
  unfold escaped at h
  split at h
  · next e he =>
    rw [String.toList_ofList] at h
    rcases List.mem_cons.mp h with rfl | h
    · rfl
    · rw [List.mem_singleton.mp h]
      unfold shortEscape? at he
      split at he <;> cases he <;> rfl
  · have hdigits (mark : Char) (width : Nat) (hwidth : 0 < width) (hroom : c.toNat < 16 ^ width)
        (hmark : isBreak mark = false)
        (hd : d ∈ '\\' :: mark :: (hexText width c.toNat).toUpper.toList) : isBreak d = false := by
      obtain ⟨hlength, hnumber⟩ := hexNumber?_hexText hwidth hroom
      rcases List.mem_cons.mp hd with rfl | hd
      · rfl
      · rcases List.mem_cons.mp hd with rfl | hd
        · exact hmark
        · refine forall_of_hexNumber? (n := c.toNat) (fun c => isBreak_of_hexDigit?) ?_ d hd
          rw [hlength, hnumber]
    dsimp only at h
    split at h
    · exact hdigits 'x' 2 (by decide) (by omega) rfl (by simpa [String.toList_append] using h)
    · split at h
      · exact hdigits 'u' 4 (by decide) (by omega) rfl (by simpa [String.toList_append] using h)
      · exact hdigits 'U' 8 (by decide) (by omega) rfl (by simpa [String.toList_append] using h)

end Page

end FilterTree.Yaml
