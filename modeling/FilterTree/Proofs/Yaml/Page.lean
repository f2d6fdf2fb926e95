import FilterTree.Yaml.Page

/-! What gets onto a page: the characters that are added to its text, and where that leaves it. -/

namespace FilterTree.Yaml.Page

def Adds (p : Page) (w : List Char) (q : Page) : Prop :=
  q.text.toList = p.text.toList ++ w

namespace Adds
variable {p q r : Page} {v w : List Char}

theorem refl (p : Page) : p.Adds [] p :=
  (List.append_nil _).symm

theorem trans (hpq : p.Adds v q) (hqr : q.Adds w r) : p.Adds (v ++ w) r := by
  unfold Adds at *
  rw [hqr, hpq, List.append_assoc]

theorem unique (hv : p.Adds v q) (hw : p.Adds w q) : v = w :=
  List.append_cancel_left (hv.symm.trans hw)

end Adds

variable (p : Page)

theorem adds_write (s : String) : p.Adds s.toList (p.write s) :=
  String.toList_append

theorem adds_ofList (cs : List Char) : p.Adds cs (p.write (String.ofList cs)) := by
  have h := p.adds_write (String.ofList cs)
  rwa [String.toList_ofList] at h

theorem adds_breakLine (c : Char) : p.Adds [c] (p.breakLine c) :=
  String.toList_push c

theorem adds_mark (s : String) (afterBlank atIndent : Bool) :
    p.Adds s.toList (p.mark s afterBlank atIndent) :=
  p.adds_write s

def gap : List Char :=
  if p.afterBlank then [] else [' ']

theorem adds_spaced : p.Adds p.gap p.spaced := by
  unfold spaced gap
  split
  · exact .refl p
  · exact p.adds_write " "

theorem adds_property (s : String) : p.Adds (p.gap ++ s.toList) (p.property s) :=
  p.adds_spaced.trans (p.spaced.adds_mark s false false)

variable {p}

structure IsAt (p : Page) (column : Nat) : Prop where
  column_eq : p.column = column
  afterBlank : p.afterBlank = true
  atIndent : p.atIndent = true

theorem isAt_breakLine (p : Page) (c : Char) : (p.breakLine c).IsAt 0 :=
  ⟨rfl, rfl, rfl⟩

theorem indent_inline {column : Nat} (hindent : p.atIndent = true) (hroom : p.column ≤ column)
    (hblank : p.column = column → p.afterBlank = true) :
    p.Adds (List.replicate (column - p.column) ' ') (p.indent column) ∧
      (p.indent column).IsAt column := by
  have hstay : ¬ (!p.atIndent || column < p.column || (p.column = column && !p.afterBlank)) =
      true := by
    simpa [hindent, Nat.not_lt.mpr hroom] using hblank
  unfold indent
  simp only [if_neg hstay]
  split
  · refine ⟨adds_ofList p _, ?_, rfl, hindent⟩
    simp only [write, String.length_ofList, List.length_replicate]
    omega
  · have heq : p.column = column := by omega
    rw [heq, Nat.sub_self]
    exact ⟨.refl p, heq, hblank heq, hindent⟩

theorem indent_breakLine (p : Page) (c : Char) (column : Nat) :
    (p.breakLine c).Adds (List.replicate column ' ') ((p.breakLine c).indent column) ∧
      ((p.breakLine c).indent column).IsAt column :=
  indent_inline rfl (Nat.zero_le column) (fun _ => rfl)

def Past (p : Page) (column : Nat) : Prop :=
  p.atIndent = true → column < p.column

theorem Past.of_not_atIndent (h : p.atIndent = false) (column : Nat) : p.Past column :=
  fun hindent => absurd (h.symm.trans hindent) Bool.false_ne_true

theorem indent_line {column : Nat} (h : p.Past column) :
    p.Adds ('\n' :: List.replicate column ' ') (p.indent column) ∧
      (p.indent column).IsAt column := by
  have hnew :
      (!p.atIndent || column < p.column || (p.column = column && !p.afterBlank)) = true := by
    cases hindent : p.atIndent with
    | false => rfl
    | true => simp [h hindent]
  have heq : p.indent column = (p.breakLine '\n').indent column := by
    have hstay : ¬ (!(p.breakLine '\n').atIndent || column < (p.breakLine '\n').column ||
        ((p.breakLine '\n').column = column && !(p.breakLine '\n').afterBlank)) = true := by
      simp [breakLine]
    unfold indent
    rw [if_pos hnew, if_neg hstay]
  obtain ⟨hadds, hat⟩ := indent_breakLine p '\n' column
  rw [heq]
  exact ⟨(p.adds_breakLine '\n').trans hadds, hat⟩

/-- What is added up to the end of a line, which the next line follows from any column on. -/
def Closes (p : Page) (w : List Char) (q : Page) : Prop :=
  ∀ column, p.Adds (w ++ '\n' :: List.replicate column ' ') (q.indent column) ∧
    (q.indent column).IsAt column

theorem Adds.closes {w : List Char} {q : Page} (h : p.Adds w q) (hindent : q.atIndent = false) :
    p.Closes w q := fun column => by
  obtain ⟨hline, hat⟩ := indent_line (.of_not_atIndent hindent column)
  exact ⟨h.trans hline, hat⟩

theorem Adds.closes_of_isAt {w : List Char} {q : Page} (h : p.Adds (w ++ ['\n']) q)
    (hat : q.IsAt 0) : p.Closes w q := fun column => by
  have hroom : q.column ≤ column := by
    rw [hat.column_eq]
    exact Nat.zero_le column
  obtain ⟨hspaces, hat'⟩ := indent_inline hat.atIndent hroom fun _ => hat.afterBlank
  rw [hat.column_eq, Nat.sub_zero] at hspaces
  exact ⟨by simpa using h.trans hspaces, hat'⟩

theorem Adds.trans_closes {v w : List Char} {q r : Page} (h : p.Adds v q) (hclose : q.Closes w r) :
    p.Closes (v ++ w) r := fun column => by
  obtain ⟨hline, hat⟩ := hclose column
  exact ⟨by simpa using h.trans hline, hat⟩

theorem foldTo_line (h : p.atIndent = false) (column : Nat) :
    p.Adds ('\n' :: List.replicate column ' ') (p.foldTo column) ∧
      (p.foldTo column).column = column ∧ (p.foldTo column).atIndent = false := by
  obtain ⟨hadds, hat⟩ := indent_line (.of_not_atIndent h column)
  exact ⟨hadds, hat.column_eq, rfl⟩

end FilterTree.Yaml.Page
