import FilterTree.Proofs.Yaml.Block
import FilterTree.Proofs.Yaml.Form

/-! The layout of a document. What is written of a value, of the items of a sequence and of the entries
of a mapping is read as the tokens of its form, whatever comes before it, where a line follows that is
indented no further. -/

namespace FilterTree.Yaml

def EndsInLine (w : List Char) : Prop :=
  ∃ v ch, w = v ++ [ch] ∧ ch ≠ '\n'

namespace EndsInLine
variable {w : List Char}

theorem append (h : EndsInLine w) (u : List Char) : EndsInLine (u ++ w) := by
  obtain ⟨v, ch, rfl, hch⟩ := h
  exact ⟨u ++ v, ch, (List.append_assoc _ _ _).symm, hch⟩

theorem cons (h : EndsInLine w) (ch : Char) : EndsInLine (ch :: w) :=
  h.append [ch]

theorem of_forall (hne : w ≠ []) (h : ∀ ch ∈ w, ch ≠ '\n') : EndsInLine w :=
  ⟨w.dropLast, w.getLast hne, (List.dropLast_concat_getLast hne).symm, h _ (List.getLast_mem hne)⟩

theorem of_isWhite (hne : w ≠ []) (h : ∀ ch ∈ w, isWhite ch = false) : EndsInLine w := by
  refine of_forall hne fun ch hch => ?_
  rintro rfl
  exact Bool.noConfusion (h _ hch)

end EndsInLine

theorem Woven.endsInLine {column : Nat} {w s : List Char} (h : Woven column w s) :
    EndsInLine w := by
  induction h with
  | word hword => exact .of_isWhite hword.ne_nil hword.solid
  | spaces _ _ _ ih => exact (ih.append _).append _
  | fold _ _ ih => exact ((ih.append _).cons '\n').append _

theorem Inks.endsInLine {column : Nat} {w : List Char} {text : String} {isPlain : Bool}
    (h : Inks column w text isPlain) : EndsInLine w := by
  cases h with
  | plain h _ => exact h.endsInLine
  | @quoted double w s _ =>
    have hmark : quoteMark double ≠ '\n' := by cases double <;> decide
    exact ⟨quoteMark double :: w, quoteMark double, rfl, hmark⟩

theorem Blocked.endsInLine {indent : Nat} {w s : List Char} (h : Blocked indent w s) :
    EndsInLine w := by
  induction h with
  | last hne hline => exact .of_isWhite hne hline
  | line _ _ _ ih => exact ((ih.append _).cons '\n').append _

theorem Mark.endsInLine {m : Mark} (h : m.IsWord) : EndsInLine m.ink := by
  obtain ⟨ch, more, hink, -⟩ := m.exists_ink
  refine .of_forall (by rw [hink]; exact List.cons_ne_nil _ _) fun ch hch => ?_
  rintro rfl
  exact Bool.noConfusion (isAllowed_ink h _ hch).2

namespace Lexer

/-- A value in a collection at a column. It comes after the mark of an item, of a key or of a value, or
else after a key with its colon. -/
structure Spells (afterMark : Bool) (column : Nat) (w : List Char) (ts : List Token) : Prop where
  allowed : ∀ ch ∈ w, isAllowed ch = true
  ends : EndsInLine w
  blank : startsBlank w = true
  space : afterMark = true → ∃ v, w = ' ' :: v
  read : ∀ (c : Cursor) (outer : List Int) (done : List Token) (n : Nat) (u : List Char),
    c.rest = w ++ '\n' :: (List.replicate n ' ' ++ u) → Follows n u → n ≤ column →
    column < c.column → (afterMark = true → c.column = column + 1) →
    ∃ y, Turns (amid c afterMark column outer done) y ∧ y.Stands u n true column outer (done ++ ts)

structure SpellsKey (column : Nat) (w : List Char) (ts : List Token) : Prop where
  allowed : ∀ ch ∈ w, isAllowed ch = true
  begins : ∀ v, Begins (w ++ v)
  read : ∀ (x : Lexer) (indent : Int) (outer : List Int) (done : List Token) (v : List Char),
    x.Stands (w ++ ':' :: v) column true indent outer done → indent ≤ column →
    startsBlank v = true →
    ∃ d : Cursor, d.rest = v ∧ column < d.column ∧
      Turns x (amid d false column (around indent column outer)
        (done ++ begun indent column .blockMapping ++ .key :: (ts ++ [.value])))

structure SpellsBlock (t : Token) (column : Nat) (w : List Char) (ts : List Token) : Prop where
  allowed : ∀ ch ∈ w, isAllowed ch = true
  ends : EndsInLine w
  follows : ∀ v, Follows column (w ++ v)
  read : ∀ (x : Lexer) (indent : Int) (outer : List Int) (done : List Token) (n : Nat)
    (u : List Char),
    x.Stands (w ++ '\n' :: (List.replicate n ' ' ++ u)) column true indent outer done →
    indent ≤ column → Follows n u → n ≤ column →
    ∃ y, Turns x y ∧ y.Stands u n true column (around indent column outer)
      (done ++ begun indent column t ++ ts)

theorem around_self (column : Nat) (outer : List Int) : around column column outer = outer :=
  if_neg (Int.lt_irrefl _)

theorem begun_self (column : Nat) (t : Token) : begun column column t = [] :=
  if_neg (Int.lt_irrefl _)

/-! ### Values -/

namespace Spells
variable {afterMark : Bool} {column : Nat} {w : List Char} {ts : List Token}

theorem allowed_space (hw : ∀ ch ∈ w, isAllowed ch = true) : ∀ ch ∈ ' ' :: w, isAllowed ch = true :=
  List.forall_mem_cons.mpr ⟨rfl, hw⟩

theorem allowed_marked {m : Mark} (hm : m.IsWord) (hw : ∀ ch ∈ w, isAllowed ch = true) :
    ∀ ch ∈ m.ink ++ ' ' :: w, isAllowed ch = true :=
  List.forall_mem_append.mpr
    ⟨fun ch hch => (Mark.isAllowed_ink hm ch hch).1, allowed_space hw⟩

theorem stands_space {c : Cursor} (allowed : Bool) (column : Nat) (outer : List Int)
    (done : List Token) {u : List Char} (hrest : c.rest = ' ' :: u) (hu : Begins u) :
    (amid c allowed column outer done).Stands u (c.column + 1) allowed column outer done := by
  have hstands := stands_spaces (x := amid c allowed column outer done) rfl (n := 1) (u := u) hrest
    hu nofun
  have hcolumn : (c.advance 1).column = c.column + 1 :=
    Cursor.column_advance_spaces (n := 1) (v := u) hrest
  change Stands _ u (c.advance 1).column allowed column outer _ at hstands
  rwa [hcolumn] at hstands

theorem scalar {text : String} {isPlain : Bool} (hink : Inks (column + 2) w text isPlain) :
    Spells afterMark column (' ' :: w) [.scalar text isPlain] where
  allowed := allowed_space hink.isAllowed
  ends := hink.endsInLine.cons ' '
  blank := rfl
  space _ := ⟨w, rfl⟩
  read c outer done n u hrest hu hn hright _ :=
    (stands_space _ _ _ _ hrest (begins_append hink _)).scalar (by omega) hink (by omega)
      (by omega) (by omega) hu (by omega)

theorem marked {m : Mark} (hm : m.IsWord) {text : String} {isPlain : Bool}
    (hink : Inks (column + 2) w text isPlain) :
    Spells afterMark column (' ' :: (m.ink ++ ' ' :: w)) [m.token, .scalar text isPlain] where
  allowed := allowed_space (allowed_marked hm hink.isAllowed)
  ends := ((hink.endsInLine.cons ' ').append _).cons ' '
  blank := rfl
  space _ := ⟨_, rfl⟩
  read c outer done n u hrest hu hn hright _ := by
    simp only [List.cons_append, List.append_assoc] at hrest
    exact (stands_space _ _ _ _ hrest (m.begins_ink _)).marked hm (by omega) hink (by omega)
      (by omega) (by omega) hu (by omega)

theorem block {m : Mark} (hm : m.IsWord) {s : List Char} (hw : Blocked (column + 2) w s)
    (hallowed : ∀ ch ∈ w, isAllowed ch = true) :
    Spells afterMark column
      (' ' :: (m.ink ++ ' ' :: '|' :: '\n' :: (List.replicate (column + 2) ' ' ++ w)))
      [m.token, .scalar (String.ofList (s ++ ['\n'])) false] where
  allowed := allowed_space (allowed_marked hm
    (List.forall_mem_cons.mpr ⟨rfl, isAllowed_line (column + 2) hallowed⟩))
  ends := (((((hw.endsInLine.append _).cons '\n').cons '|').cons ' ').append _).cons ' '
  blank := rfl
  space _ := ⟨_, rfl⟩
  read c outer done n u hrest hu hn hright _ := by
    simp only [List.cons_append, List.append_assoc] at hrest
    exact (stands_space _ _ _ _ hrest (m.begins_ink _)).block hm (by omega) (by omega) (by omega) hw
      (by omega) hu (by omega)

theorem «alias» {m : Mark} (hm : m.IsWord) (hb : m.Stops '\n') :
    Spells afterMark column (' ' :: m.ink) [m.token] where
  allowed := allowed_space fun ch hch => (Mark.isAllowed_ink hm ch hch).1
  ends := (Mark.endsInLine hm).cons ' '
  blank := rfl
  space _ := ⟨_, rfl⟩
  read c outer done n u hrest hu hn hright _ :=
    (stands_space _ _ _ _ hrest (m.begins_ink _)).alias hm hb (by omega) (by omega) hu

theorem hollowSequence :
    Spells afterMark column [' ', '[', ']'] [.flowSequence, .flowSequenceEnd] where
  allowed := List.all_eq_true.mp rfl
  ends := ⟨[' ', '['], ']', rfl, by decide⟩
  blank := rfl
  space _ := ⟨_, rfl⟩
  read c outer done n u hrest hu hn hright _ :=
    (stands_space _ _ _ _ hrest ⟨rfl, by simp, by simp⟩).hollowSequence (by omega) hu.toBegins

theorem hollowMapping :
    Spells afterMark column [' ', '\x7b', '\x7d'] [.flowMapping, .flowMappingEnd] where
  allowed := List.all_eq_true.mp rfl
  ends := ⟨[' ', '\x7b'], '\x7d', rfl, by decide⟩
  blank := rfl
  space _ := ⟨_, rfl⟩
  read c outer done n u hrest hu hn hright _ :=
    (stands_space _ _ _ _ hrest ⟨rfl, by simp, by simp⟩).hollowMapping (by omega) hu.toBegins

/-- The line of a mark has room for the first item of a collection. -/
def lead (afterMark : Bool) (column : Nat) : List Char :=
  if afterMark then [' '] else '\n' :: List.replicate (column + 2) ' '

theorem nested {t : Token} (hw : SpellsBlock t (column + 2) w ts) :
    Spells afterMark column (lead afterMark column ++ w) (t :: ts ++ [.blockEnd]) where
  allowed := by
    cases afterMark with
    | true => exact allowed_space hw.allowed
    | false => exact isAllowed_line (column + 2) hw.allowed
  ends := hw.ends.append _
  blank := by cases afterMark <;> rfl
  space h := ⟨w, by rw [h]; rfl⟩
  read c outer done n u hrest hu hn hright hmark := by
    have hplace : (amid c afterMark column outer done).Stands
        (w ++ '\n' :: (List.replicate n ' ' ++ u)) (column + 2) true column outer done := by
      cases afterMark with
      | true =>
        have hstands := stands_space true column outer done hrest (hw.follows _).toBegins
        rwa [hmark rfl] at hstands
      | false =>
        rw [lead, if_neg Bool.false_ne_true, List.append_assoc, List.cons_append] at hrest
        exact stands_line (x := amid c false column outer done) rfl nofun hrest
          (hw.follows _).toBegins
    obtain ⟨y, hxy, hy⟩ := hw.read _ column outer done n u hplace (by omega) hu (by omega)
    have hbeyond : (column : Int) < (column + 2 : Nat) := by omega
    rw [around, begun, if_pos hbeyond, if_pos hbeyond] at hy
    exact ⟨y, hxy, by simpa using hy.pop (by omega)⟩

theorem indentless (hw : SpellsBlock .blockSequence column w ts) :
    Spells false column ('\n' :: (List.replicate column ' ' ++ w)) ts where
  allowed := isAllowed_line column hw.allowed
  ends := (hw.ends.append _).cons '\n'
  blank := rfl
  space := nofun
  read c outer done n u hrest hu hn hright _ := by
    simp only [List.append_assoc, List.cons_append] at hrest
    have hstands := stands_line (x := amid c false column outer done) rfl nofun hrest
      (hw.follows _).toBegins
    obtain ⟨y, hxy, hy⟩ := hw.read _ column outer done n u hstands (Int.le_refl _) hu hn
    rw [around_self, begun_self, List.append_nil] at hy
    exact ⟨y, hxy, hy⟩

end Spells

/-! ### Keys -/

namespace SpellsKey
variable {column : Nat} {w : List Char}

theorem scalar (hcolumn : 0 < column) {text : String} {isPlain : Bool}
    (hink : Inks (column + 2) w text isPlain) (hline : ∀ ch ∈ w, isBreak ch = false)
    (hlength : w.length ≤ 1024) : SpellsKey column w [.scalar text isPlain] where
  allowed := hink.isAllowed
  begins := begins_append hink
  read _ _ _ _ _ hx hindent hv := hx.simpleKey hindent hink (by omega) hcolumn hline hlength hv

theorem marked (hcolumn : 0 < column) {m : Mark} (hm : m.IsWord) {text : String} {isPlain : Bool}
    (hink : Inks (column + 2) w text isPlain) (hline : ∀ ch ∈ w, isBreak ch = false)
    (hlength : m.ink.length + 1 + w.length ≤ 1024) :
    SpellsKey column (m.ink ++ ' ' :: w) [m.token, .scalar text isPlain] where
  allowed := Spells.allowed_marked hm hink.isAllowed
  begins v := by
    rw [List.append_assoc]
    exact m.begins_ink _
  read _ _ _ _ _ hx hindent hv := by
    rw [List.append_assoc, List.cons_append] at hx
    exact hx.markedKey hm hindent hink (by omega) hcolumn hline hlength hv

theorem «alias» (hcolumn : 0 < column) {m : Mark} (hm : m.IsWord) (hb : m.Stops ':')
    (hlength : m.ink.length ≤ 1024) : SpellsKey column m.ink [m.token] where
  allowed ch hch := (Mark.isAllowed_ink hm ch hch).1
  begins := m.begins_ink
  read _ _ _ _ _ hx hindent hv := hx.aliasKey hm hb hindent hcolumn hlength hv

end SpellsKey

/-! ### Blocks -/

namespace SpellsBlock
variable {t : Token} {column : Nat} {v w : List Char} {ts us : List Token}

theorem append (hv : SpellsBlock t column v ts) (hw : SpellsBlock t column w us) :
    SpellsBlock t column (v ++ '\n' :: (List.replicate column ' ' ++ w)) (ts ++ us) where
  allowed := List.forall_mem_append.mpr ⟨hv.allowed, isAllowed_line column hw.allowed⟩
  ends := ((hw.ends.append _).cons '\n').append _
  follows u := by
    rw [List.append_assoc]
    exact hv.follows _
  read x indent outer done n u hx hindent hu hn := by
    simp only [List.append_assoc, List.cons_append] at hx
    obtain ⟨y, hxy, hy⟩ := hv.read x indent outer done column _ hx hindent (hw.follows _)
      (Nat.le_refl _)
    obtain ⟨z, hyz, hz⟩ := hw.read y column _ _ n u hy (Int.le_refl _) hu hn
    rw [around_self, begun_self, List.append_nil] at hz
    exact ⟨z, hxy.trans hyz, by rwa [← List.append_assoc]⟩

theorem item (hw : Spells true column w ts) :
    SpellsBlock .blockSequence column ('-' :: w) (.blockEntry :: ts) where
  allowed := List.forall_mem_cons.mpr ⟨rfl, hw.allowed⟩
  ends := hw.ends.cons '-'
  follows u := by
    obtain ⟨w, rfl⟩ := hw.space rfl
    exact ⟨⟨rfl, by simp, by simp⟩, fun _ => atMarker_blank '-' _⟩
  read x indent outer done n u hx hindent hu hn := by
    obtain ⟨v, rfl⟩ := hw.space rfl
    obtain ⟨c, hrest, hcolumn, hturns⟩ := hx.dash hindent
    obtain ⟨y, hcy, hy⟩ := hw.read c (around indent column outer) _ n u hrest hu hn (by omega)
      fun _ => hcolumn
    exact ⟨y, hturns.trans hcy, by simpa using hy⟩

theorem shortEntry (hcolumn : 0 < column) (hv : SpellsKey column v us)
    (hw : Spells false column w ts) :
    SpellsBlock .blockMapping column (v ++ ':' :: w) (.key :: (us ++ .value :: ts)) where
  allowed := List.forall_mem_append.mpr ⟨hv.allowed, List.forall_mem_cons.mpr ⟨rfl, hw.allowed⟩⟩
  ends := (hw.ends.cons ':').append v
  follows u := by
    rw [List.append_assoc]
    exact ⟨hv.begins _, fun h => absurd h (Nat.ne_of_gt hcolumn)⟩
  read x indent outer done n u hx hindent hu hn := by
    simp only [List.append_assoc, List.cons_append] at hx
    have hblank : startsBlank (w ++ '\n' :: (List.replicate n ' ' ++ u)) = true := by
      cases w with
      | nil => rfl
      | cons ch w => exact hw.blank
    obtain ⟨c, hrest, hright, hturns⟩ := hv.read x indent outer done _ hx hindent hblank
    obtain ⟨y, hcy, hy⟩ := hw.read c (around indent column outer) _ n u hrest hu hn hright nofun
    exact ⟨y, hturns.trans hcy, by simpa using hy⟩

theorem longEntry (hcolumn : 0 < column) (hv : Spells true column (' ' :: v) us)
    (hw : Spells true column w ts) :
    SpellsBlock .blockMapping column
      ('?' :: ' ' :: (v ++ '\n' :: (List.replicate column ' ' ++ ':' :: w)))
      (.key :: (us ++ .value :: ts)) where
  allowed := by
    have hcolon : ∀ ch ∈ ':' :: w, isAllowed ch = true :=
      List.forall_mem_cons.mpr ⟨rfl, hw.allowed⟩
    exact List.forall_mem_cons.mpr ⟨rfl,
      List.forall_mem_append.mpr ⟨hv.allowed, isAllowed_line column hcolon⟩⟩
  ends := (((((hw.ends.cons ':').append _).cons '\n').append v).cons ' ').cons '?'
  follows u := ⟨⟨rfl, by simp, by simp⟩, fun h => absurd h (Nat.ne_of_gt hcolumn)⟩
  read x indent outer done n u hx hindent hu hn := by
    obtain ⟨v', rfl⟩ := hw.space rfl
    simp only [List.append_assoc, List.cons_append] at hx
    obtain ⟨c, hrest, hright, hturns⟩ := hx.question hindent
    have hkey : Follows column (':' :: ' ' :: (v' ++ '\n' :: (List.replicate n ' ' ++ u))) :=
      ⟨⟨rfl, by simp, by simp⟩, fun h => absurd h (Nat.ne_of_gt hcolumn)⟩
    obtain ⟨y, hcy, hy⟩ := hv.read c (around indent column outer) _ column _ hrest hkey
      (Nat.le_refl _) (by omega) fun _ => hright
    obtain ⟨d, hrest', hright', hturns'⟩ := hy.colon
    obtain ⟨z, hdz, hz⟩ := hw.read d _ _ n u hrest' hu hn (by omega) fun _ => hright'
    exact ⟨z, hturns.trans (hcy.trans (hturns'.trans hdz)), by simpa using hz⟩

end SpellsBlock

end Lexer

end FilterTree.Yaml
