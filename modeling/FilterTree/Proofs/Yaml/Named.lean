import FilterTree.Proofs.Yaml.Binary
import FilterTree.Proofs.Yaml.Layout
import FilterTree.Proofs.Yaml.Meaning
import FilterTree.Yaml.Writer

/-! Scalars as they are written, with the names that some of them have. What is written of a scalar is
read as the tokens of a form, which stands for a value with the property that the scalar is drawn for. -/

namespace FilterTree.Yaml

/-! ### Layouts -/

namespace Scalar

def isShort (s : Scalar) : Bool :=
  decide ((Tags.shorthand s.tag).length + s.text.length < 128) && !s.features.isEmpty &&
    !s.features.isMultiline

theorem isMultiline_of_isShort {x : Scalar} (h : x.isShort = true) :
    x.features.isMultiline = false := by
  simpa using (Bool.and_eq_true_iff.mp h).2

/-- A scalar that is written as its text alone. Whatever its text may be read as, it stands for values
with a property; only where it does not fit may that be another text than the style makes of it. -/
structure Draws (column : Nat) (isKey : Bool) (P : Value → Prop) (s : Scalar) : Prop where
  bare : s.IsBare isKey
  reads : ∀ text, (s.Fits column isKey → text = s.reread isKey) →
    IsReading (Compose.scalarTag none (s.style isKey = .plain) text) text P

structure IsWord (P : Value → Prop) (s : Scalar) : Prop where
  bare : ∀ isKey, s.IsBare isKey
  plain : ∀ isKey, s.style isKey = .plain
  reads : IsReading (tagOfSpelling s.text) s.text P

theorem IsWord.mono {s : Scalar} {P Q : Value → Prop} (h : s.IsWord P) (hPQ : ∀ v, P v → Q v) :
    s.IsWord Q :=
  ⟨h.bare, h.plain, h.reads.mono hPQ⟩

theorem IsWord.keyInk {s : Scalar} {P : Value → Prop} (h : s.IsWord P) :
    s.keyInk = s.text.toList := by
  rw [Scalar.keyInk, h.plain]

theorem IsWord.draws {s : Scalar} {P : Value → Prop} (h : s.IsWord P) (column : Nat)
    (isKey : Bool) : s.Draws column isKey P where
  bare := h.bare isKey
  reads text htext := by
    have hfits : s.Fits column isKey := fun hdouble => by
      rw [h.plain] at hdouble
      cases hdouble
    obtain rfl : text = s.text := by
      rw [htext hfits, reread, h.plain, if_neg (by decide)]
    rw [Compose.scalarTag, h.plain, decide_eq_true rfl, if_pos rfl]
    exact h.reads

end Scalar

/-- A scalar as a layout, which may have a name, or stand for bytes. A key on the line of its colon has
to be within the reach of that. -/
inductive DrawsScalar (column : Nat) (isKey : Bool) (P : Value → Prop) : Sketch → Prop
  | bare {s : Scalar} (h : s.Draws (column + 2) isKey P)
      (hreach : isKey = true → s.keyInk.length ≤ 1024) : DrawsScalar column isKey P (.scalar s none)
  | bytes {bs : List UInt8} (hkey : isKey = false) (hP : P (.bytes bs)) :
      DrawsScalar column isKey P (.scalar (.ofBytes bs) none)
  | word {s : Scalar} {i : Identity} (h : s.IsWord P) (hP : ∀ v, P v) :
      DrawsScalar column isKey P (.scalar s (some i))

def Sketch.isShort : Sketch → Bool
  | .scalar s _ => s.isShort
  | .sequence items _ => items.isEmpty
  | .mapping entries _ => entries.isEmpty

mutual

/-- A layout inside a collection at a column is read as values with a property. It may be open, under a
key that is on one line: then a sequence stays at that column. -/
inductive Draws : (column : Nat) → (isOpen : Bool) → (Value → Prop) → Sketch → Prop
  | scalar {column : Nat} {isOpen : Bool} {P : Value → Prop} {x : Sketch}
      (h : DrawsScalar column false P x) : Draws column isOpen P x
  | list {column : Nat} {isOpen : Bool} {P : Value → Prop} {Q : List Value → Prop}
      {xs : List Sketch} (h : DrawsAll (if isOpen then column else column + 2) Q xs)
      (hP : ∀ vs, Q vs → P (.list vs)) : Draws column isOpen P (.sequence xs none)
  | map {column : Nat} {isOpen : Bool} {P : Value → Prop} {Q : List (Value × Value) → Prop}
      {es : List (Sketch × Sketch)} (h : DrawsEntries (column + 2) Q es)
      (hP : ∀ ps, Q ps → P (.mapOf ps)) : Draws column isOpen P (.mapping es none)

inductive DrawsAll : (column : Nat) → (List Value → Prop) → List Sketch → Prop
  | nil {column : Nat} {Q : List Value → Prop} (hQ : Q []) : DrawsAll column Q []
  | cons {column : Nat} {P : Value → Prop} {Q R : List Value → Prop} {x : Sketch}
      {xs : List Sketch} (hx : Draws column false P x) (hxs : DrawsAll column R xs)
      (hQ : ∀ v vs, P v → R vs → Q (v :: vs)) : DrawsAll column Q (x :: xs)

inductive DrawsEntries : (column : Nat) → (List (Value × Value) → Prop) →
    List (Sketch × Sketch) → Prop
  | nil {column : Nat} {Q : List (Value × Value) → Prop} (hQ : Q []) : DrawsEntries column Q []
  | cons {column : Nat} {K P : Value → Prop} {Q R : List (Value × Value) → Prop} {k v : Sketch}
      {es : List (Sketch × Sketch)} (hk : DrawsScalar column k.isShort K k)
      (hv : ∀ isOpen, (k.identity = none → isOpen = k.isShort) → Draws column isOpen P v)
      (hes : DrawsEntries column R es) (hQ : ∀ k v ps, K k → P v → R ps → Q ((k, v) :: ps)) :
      DrawsEntries column Q ((k, v) :: es)

end

/-! ### Pages -/

namespace Page

structure IsAfter (p : Page) (afterMark : Bool) (column : Nat) : Prop where
  afterBlank : p.afterBlank = false
  atIndent : p.atIndent = afterMark
  column_eq : afterMark = true → p.column = column + 1

variable {p : Page} {column : Nat}

theorem gap_of_not_afterBlank (h : p.afterBlank = false) : p.gap = [' '] := by
  rw [Page.gap, h]
  rfl

theorem IsAfter.gap {afterMark : Bool} (h : p.IsAfter afterMark column) : p.gap = [' '] :=
  gap_of_not_afterBlank h.afterBlank

theorem IsAt.mark (h : p.IsAt column) (c : Char) :
    p.Adds [c] (p.spaced.mark (String.singleton c) false true) ∧
      (p.spaced.mark (String.singleton c) false true).IsAfter true column := by
  have hspaced : p.spaced = p := by
    rw [spaced, if_pos h.afterBlank]
  have hadds := p.adds_mark (String.singleton c) false true
  rw [String.toList_singleton] at hadds
  rw [hspaced]
  refine ⟨hadds, rfl, ?_, fun _ => ?_⟩
  · simp [Page.mark, Page.write, h.atIndent]
  · simp [Page.mark, Page.write, h.column_eq]

end Page

/-! ### Scalars by themselves -/

namespace Scalar
variable {P : Value → Prop} {x : Scalar} {p : Page}

theorem Draws.exists_closes {column : Nat} (h : x.Draws (column + 2) false P) (hp : p.gap = [' ']) :
    ∃ w text, p.Closes (' ' :: w) (p.scalar (column + 2) false x) ∧
      Inks (column + 2) w text (x.style false = .plain) ∧
      IsReading (Compose.scalarTag none (x.style false = .plain) text) text P := by
  obtain ⟨w, text, hw, hindent, hink, hsame⟩ := exists_ink (Nat.succ_pos _) h.bare p
  rw [hp] at hw
  exact ⟨w, text, hw.closes hindent, hink, h.reads text hsame⟩

theorem Draws.exists_keyInk {column : Nat} (h : x.Draws (column + 2) true P)
    (hline : x.features.isMultiline = false) :
    ∃ text, Inks (column + 2) x.keyInk text (x.style true = .plain) ∧
      IsReading (Compose.scalarTag none (x.style true = .plain) text) text P := by
  obtain ⟨text, hink, hsame⟩ := inks_keyInk (Nat.succ_pos _) h.bare hline
  exact ⟨text, hink, h.reads text hsame⟩

theorem exists_binary (isOpen : Bool) (column : Nat) (bs : List UInt8) (hp : p.gap = [' ']) :
    ∃ w text, p.Closes w (p.scalar (column + 2) false (.ofBytes bs)) ∧
      Lexer.Spells (!isOpen) column w ((Form.binary text).tokens isOpen) ∧
      IsReading Tags.binary text (· = .bytes bs) := by
  have hsame : (Value.bytes bs).same true (.bytes bs) = true := by
    simp [Value.same, Value.sameScalar]
  by_cases hne : bs = []
  · subst hne
    have hcloses := closes_ofBytes_nil (column + 2) p
    rw [hp] at hcloses
    have hink : Inks (column + 2) ['"', '"'] "" false := @Inks.quoted (column + 2) true [] [] .nil
    exact ⟨_, "", hcloses, .marked (m := .binary) trivial hink,
      rfl, fun _ => ⟨.bytes [], rfl, hsame, rfl⟩⟩
  · obtain ⟨w, t, htext, hblocked, hallowed, hcloses⟩ := exists_closes_ofBytes (column + 2) hne p
    rw [hp] at hcloses
    refine ⟨_, (ofBytes bs).text, hcloses, ?_,
      rfl, fun serial => ⟨.bytes bs, read_ofBytes bs serial, hsame, rfl⟩⟩
    have hspells : Lexer.Spells (!isOpen) column _ _ :=
      .block (m := .binary) trivial hblocked hallowed
    rw [← htext, String.ofList_toList] at hspells
    exact hspells

end Scalar

namespace Sheet

/-! ### Names -/

def names (s : Sheet) : List String :=
  s.written.map fun i => (s.name? (some i)).getD ""

/-- Only what stands in several places is known by a name. -/
def IsFair (s : Sheet) : Prop :=
  ∀ i ∈ s.written, i ∈ s.repeated

variable {s : Sheet} {i j : Identity} {name : String}

theorem name?_eq_some (h : s.name? (some i) = some name) :
    ∃ n, s.repeated[n]? = some i ∧ name = "id" ++ padded 3 (n + 1) := by
  unfold name? at h
  obtain ⟨n, hn, rfl⟩ := Option.map_eq_some_iff.mp h
  rw [Option.bind_some] at hn
  obtain ⟨hlt, heq, -⟩ := List.findIdx?_eq_some_iff_getElem.mp hn
  exact ⟨n, by rw [List.getElem?_eq_getElem hlt, beq_iff_eq.mp heq], rfl⟩

theorem exists_name (h : i ∈ s.repeated) : ∃ name, s.name? (some i) = some name := by
  unfold name?
  rw [Option.bind_some]
  cases hfind : s.repeated.findIdx? (· == i) with
  | none => exact absurd (List.findIdx?_eq_none_iff.mp hfind i h) (by simp)
  | some n => exact ⟨_, rfl⟩

theorem name?_injective (hi : s.name? (some i) = some name) (hj : s.name? (some j) = some name) :
    i = j := by
  obtain ⟨n, hn, hname⟩ := name?_eq_some hi
  obtain ⟨m, hm, rfl⟩ := name?_eq_some hj
  have hdigits : padded 3 (m + 1) = padded 3 (n + 1) := by
    have hchars := congrArg String.toList hname
    rw [String.toList_append, String.toList_append] at hchars
    exact String.toList_inj.mp (List.append_cancel_left hchars)
  have heq : m + 1 = n + 1 := by
    rw [← digitsValue_padded 3 (m + 1), hdigits, digitsValue_padded]
  obtain rfl : m = n := by omega
  exact Option.some.inj (hn.symm.trans hm)

theorem isWord_of_name (h : s.name? (some i) = some name) :
    name.toList ≠ [] ∧ ∀ ch ∈ name.toList, isWordChar ch = true := by
  obtain ⟨n, -, rfl⟩ := name?_eq_some h
  rw [String.toList_append]
  refine ⟨by simp, fun ch hch => ?_⟩
  rcases List.mem_append.mp hch with hch | hch
  · exact List.all_eq_true.mp (by rfl : "id".toList.all isWordChar = true) ch hch
  · have hdigit := isDigit_of_mem_padded hch
    simp [isWordChar, Char.isAlphanum, hdigit]

theorem not_mem_names (hs : s.IsFair) (hname : s.name? (some i) = some name)
    (hi : i ∉ s.written) : name ∉ s.names := by
  intro hmem
  obtain ⟨j, hj, heq⟩ := List.mem_map.mp hmem
  obtain ⟨other, hother⟩ := exists_name (hs j hj)
  rw [hother] at heq
  obtain rfl : other = name := heq
  exact hi (name?_injective hname hother ▸ hj)

theorem mem_names (hname : s.name? (some i) = some name) (hi : i ∈ s.written) :
    name ∈ s.names :=
  List.mem_map.mpr ⟨i, hi, by rw [hname]; rfl⟩

/-! ### Scalars -/

structure Goes (p : Page) (w : List Char) (s : Sheet) : Prop where
  closes : p.Closes w s.page
  fair : s.IsFair

theorem Goes.after {p q : Page} {v w : List Char} (h : p.Adds v q) (hgoes : Goes q w s) :
    Goes p (v ++ w) s :=
  ⟨h.trans_closes hgoes.closes, hgoes.fair⟩

variable {outer : Option Nat} {inMapping isKey : Bool}

theorem write_scalar (x : Scalar) (column : Nat) (s : Sheet) :
    write (some column) inMapping isKey (.scalar x none) s =
      s.onPage (Page.scalar (column + 2) isKey x) := by
  rw [write]
  rfl

/-- A scalar that may have a name is written without it, or with it, or is nothing but the name. -/
theorem write_identified (inMapping isKey : Bool) (x : Scalar) (i : Identity) (column : Nat) {s : Sheet}
    (hs : s.IsFair) :
    (∃ name, s.name? (some i) = some name ∧ i ∈ s.written ∧
      write (some column) inMapping isKey (.scalar x (some i)) s =
        s.onPage (·.property ("*" ++ name))) ∨
    (∃ name, s.name? (some i) = some name ∧ i ∉ s.written ∧
      write (some column) inMapping isKey (.scalar x (some i)) s =
        ⟨(s.page.property ("&" ++ name)).scalar (column + 2) isKey x, s.repeated, i :: s.written⟩) ∨
    (s.name? (some i) = none ∧ i ∉ s.written ∧
      write (some column) inMapping isKey (.scalar x (some i)) s =
        s.onPage (Page.scalar (column + 2) isKey x)) := by
  by_cases hi : i ∈ s.written
  · obtain ⟨name, hname⟩ := exists_name (hs i hi)
    refine .inl ⟨name, hname, hi, ?_⟩
    rw [write]
    simp [isKnown, Sketch.identity, hi, hname]
  · cases hname : s.name? (some i) with
    | some name =>
      refine .inr (.inl ⟨name, rfl, hi, ?_⟩)
      rw [write]
      simp [isKnown, Sketch.identity, hi, introduce, hname, onPage]
    | none =>
      refine .inr (.inr ⟨rfl, hi, ?_⟩)
      rw [write]
      simp [isKnown, Sketch.identity, hi, introduce, hname, onPage]

theorem IsFair.introduced (hs : s.IsFair) (hname : s.name? (some i) = some name) (p : Page) :
    (⟨p, s.repeated, i :: s.written⟩ : Sheet).IsFair ∧
      (⟨p, s.repeated, i :: s.written⟩ : Sheet).names = name :: s.names := by
  constructor
  · refine List.forall_mem_cons.mpr ⟨?_, hs⟩
    obtain ⟨n, hn, -⟩ := name?_eq_some hname
    exact List.mem_of_getElem? hn
  · change (s.name? (some i)).getD "" :: _ = _
    rw [hname]
    rfl

theorem adds_property_name (p : Page) (c : Char) (name : String) :
    p.Adds (p.gap ++ c :: name.toList) (p.property (String.singleton c ++ name)) := by
  have hadds := p.adds_property (String.singleton c ++ name)
  rwa [String.toList_append, String.toList_singleton] at hadds

theorem exists_word {P : Value → Prop} {x : Scalar} {column : Nat} (isOpen inMapping : Bool)
    (hx : x.IsWord P) (hP : ∀ v, P v) (i : Identity) (hgap : s.page.gap = [' ']) (hs : s.IsFair) :
    ∃ (w : List Char) (f : Form),
      Goes s.page w (write (some column) inMapping false (.scalar x (some i)) s) ∧
      Lexer.Spells (!isOpen) column w (f.tokens isOpen) ∧
      f.Reads s.names (write (some column) inMapping false (.scalar x (some i)) s).names
        (GivesScalar P) := by
  have hdraws := hx.draws (column + 2) false
  rcases write_identified inMapping false x i column hs with
    ⟨name, hname, hi, hwrite⟩ | ⟨name, hname, hi, hwrite⟩ | ⟨-, -, hwrite⟩
  · have hadds := adds_property_name s.page '*' name
    rw [hgap] at hadds
    rw [hwrite]
    refine ⟨_, .alias name, ⟨hadds.closes (Bool.and_false _), hs⟩, ?_,
      .alias (mem_names hname hi) hP⟩
    have hspells : Lexer.Spells (!isOpen) column _ _ :=
      .alias (m := .alias name.toList) (isWord_of_name hname) rfl
    rwa [Mark.token, String.ofList_toList] at hspells
  · have hadds := adds_property_name s.page '&' name
    rw [hgap] at hadds
    have hnamed : (s.page.property ("&" ++ name)).gap = [' '] := rfl
    obtain ⟨w, text, hw, hink, hreads⟩ := hdraws.exists_closes hnamed
    obtain ⟨hfair, hnames⟩ := hs.introduced hname
      ((s.page.property ("&" ++ name)).scalar (column + 2) false x)
    rw [hwrite, hnames]
    refine ⟨_, .named name text _, ⟨hadds.trans_closes hw, hfair⟩, ?_,
      .named (not_mem_names hs hname hi) hreads⟩
    have hspells : Lexer.Spells (!isOpen) column _ _ :=
      .marked (m := .anchor name.toList) (isWord_of_name hname) hink
    rwa [Mark.token, String.ofList_toList] at hspells
  · obtain ⟨w, text, hw, hink, hreads⟩ := hdraws.exists_closes hgap
    rw [hwrite]
    exact ⟨_, .scalar text _, ⟨hw, hs⟩, .scalar hink, .scalar hreads⟩

theorem exists_scalar {P : Value → Prop} {x : Sketch} {column : Nat} (isOpen : Bool)
    (h : DrawsScalar column false P x) (inMapping : Bool) (hafter : s.page.IsAfter (!isOpen) column)
    (hs : s.IsFair) : ∃ (w : List Char) (f : Form),
      Goes s.page w (write (some column) inMapping false x s) ∧
      Lexer.Spells (!isOpen) column w (f.tokens isOpen) ∧
      f.Reads s.names (write (some column) inMapping false x s).names (GivesScalar P) := by
  cases h with
  | bare hx _ =>
    obtain ⟨w, text, hw, hink, hreads⟩ := hx.exists_closes hafter.gap
    rw [write_scalar]
    exact ⟨_, .scalar text _, ⟨hw, hs⟩, .scalar hink, .scalar hreads⟩
  | @bytes bs _ hP =>
    obtain ⟨w, text, hw, hspells, hreads⟩ := Scalar.exists_binary isOpen column bs hafter.gap
    rw [write_scalar]
    exact ⟨w, .binary text, ⟨hw, hs⟩, hspells, .binary (hreads.mono fun v hv => hv ▸ hP)⟩
  | @word _ i hx hP => exact exists_word isOpen inMapping hx hP i hafter.gap hs

/-! ### Keys -/

theorem isSimpleKey_eq (s : Sheet) {k : Sketch} (h : k.identity = none) :
    s.isSimpleKey k = k.isShort := by
  cases k with
  | scalar x i =>
    cases h
    simp [isSimpleKey, isKnown, name?, Sketch.identity, Sketch.isShort, Scalar.isShort]
  | sequence items i =>
    cases h
    simp [isSimpleKey, isKnown, Sketch.identity, Sketch.isShort]
  | mapping es i =>
    cases h
    simp [isSimpleKey, isKnown, Sketch.identity, Sketch.isShort]

theorem drawsScalar_isSimpleKey {K : Value → Prop} {k : Sketch} {column : Nat}
    (h : DrawsScalar column k.isShort K k) (s : Sheet) :
    DrawsScalar column (s.isSimpleKey k) K k := by
  cases h with
  | bare hx hreach =>
    rw [isSimpleKey_eq s rfl]
    exact .bare hx hreach
  | bytes hkey hP =>
    rw [isSimpleKey_eq s rfl]
    exact .bytes hkey hP
  | word hx hP => exact .word hx hP

theorem length_of_isSimpleKey {x : Scalar} (h : s.isSimpleKey (.scalar x (some i)) = true) :
    (∀ name, s.name? (some i) = some name → name.length < 128) ∧
      (i ∉ s.written → x.text.length < 128 ∧ x.features.isMultiline = false ∧
        ∀ name, s.name? (some i) = some name → name.length + x.text.length < 128) := by
  by_cases hi : i ∈ s.written
  · have hnamed : ((s.name? (some i)).map String.length).getD 0 < 128 := by
      simp only [isSimpleKey, isKnown, Sketch.identity, Option.any_some, List.contains_eq_mem,
        decide_eq_true hi, if_true] at h
      exact of_decide_eq_true h
    refine ⟨fun name hname => ?_, fun hnew => absurd hi hnew⟩
    rwa [hname] at hnamed
  · have hshort : ((s.name? (some i)).map String.length).getD 0 +
        (Tags.shorthand x.tag).length + x.text.length < 128 ∧ x.features.isMultiline = false := by
      simp only [isSimpleKey, isKnown, Sketch.identity, Option.any_some, List.contains_eq_mem,
        decide_eq_true_eq, if_neg hi, Bool.and_eq_true, Bool.not_eq_true'] at h
      exact ⟨of_decide_eq_true h.1.1, h.2⟩
    refine ⟨fun name hname => ?_, fun _ => ⟨by omega, hshort.2, fun name hname => ?_⟩⟩ <;>
    · rw [hname, Option.map_some, Option.getD_some] at hshort
      omega

theorem exists_keyWord {K : Value → Prop} {x : Scalar} {column : Nat} (hcolumn : 0 < column)
    (hx : x.IsWord K) (hK : ∀ v, K v) {i : Identity}
    (hshort : s.isSimpleKey (.scalar x (some i)) = true) (hgap : s.page.gap = []) (hs : s.IsFair) :
    ∃ (w : List Char) (f : Form),
      s.page.Adds w (write (some column) true true (.scalar x (some i)) s).page ∧
      (write (some column) true true (.scalar x (some i)) s).IsFair ∧
      Lexer.SpellsKey column w (f.tokens false) ∧
      f.Reads s.names (write (some column) true true (.scalar x (some i)) s).names
        (GivesScalar K) := by
  have hdraws := hx.draws (column + 2) true
  have hlength : x.keyInk.length = x.text.length := by
    rw [hx.keyInk, String.length_toList]
  obtain ⟨hname, htext⟩ := length_of_isSimpleKey hshort
  rcases write_identified true true x i column hs with
    ⟨name, hi, hmem, hwrite⟩ | ⟨name, hi, hnew, hwrite⟩ | ⟨-, hnew, hwrite⟩
  · have hadds := adds_property_name s.page '*' name
    rw [hgap] at hadds
    rw [hwrite]
    refine ⟨_, .alias name, hadds, hs, ?_, .alias (mem_names hi hmem) hK⟩
    have hspells := Lexer.SpellsKey.alias (m := .alias name.toList) hcolumn (isWord_of_name hi) rfl
      (by have := hname name hi; simp [Mark.ink, String.length_toList]; omega)
    rwa [Mark.token, String.ofList_toList] at hspells
  · obtain ⟨-, hline, hboth⟩ := htext hnew
    obtain ⟨text, hink, hreads⟩ := hdraws.exists_keyInk hline
    have hadds := (adds_property_name s.page '&' name).trans
      (Scalar.adds_keyInk (column + 2) hdraws.bare hline (s.page.property ("&" ++ name)))
    obtain ⟨hfair, hnames⟩ := hs.introduced hi
      ((s.page.property ("&" ++ name)).scalar (column + 2) true x)
    rw [hgap] at hadds
    rw [hwrite, hnames]
    refine ⟨_, .named name text _, hadds, hfair, ?_, .named (not_mem_names hs hi hnew) hreads⟩
    have hspells := Lexer.SpellsKey.marked (m := .anchor name.toList) hcolumn (isWord_of_name hi)
      hink (Scalar.isBreak_of_mem_keyInk hdraws.bare hline)
      (by have := hboth name hi; simp [Mark.ink, hlength, String.length_toList]; omega)
    rwa [Mark.token, String.ofList_toList] at hspells
  · obtain ⟨hless, hline, -⟩ := htext hnew
    obtain ⟨text, hink, hreads⟩ := hdraws.exists_keyInk hline
    have hadds := Scalar.adds_keyInk (column + 2) hdraws.bare hline s.page
    rw [hgap] at hadds
    rw [hwrite]
    exact ⟨_, .scalar text _, hadds, hs, .scalar hcolumn hink
      (Scalar.isBreak_of_mem_keyInk hdraws.bare hline) (by rw [List.nil_append]; omega), .scalar hreads⟩

theorem exists_key {K : Value → Prop} {k : Sketch} {column : Nat} (hcolumn : 0 < column)
    (h : DrawsScalar column true K k) (hshort : s.isSimpleKey k = true)
    (hblank : s.page.afterBlank = true) (hs : s.IsFair) :
    ∃ (w : List Char) (f : Form), s.page.Adds w (write (some column) true true k s).page ∧
      (write (some column) true true k s).IsFair ∧ Lexer.SpellsKey column w (f.tokens false) ∧
      f.Reads s.names (write (some column) true true k s).names (GivesScalar K) := by
  have hgap : s.page.gap = [] := by
    rw [Page.gap, if_pos hblank]
  cases h with
  | bare hx hreach =>
    rw [isSimpleKey_eq s rfl] at hshort
    have hline := Scalar.isMultiline_of_isShort hshort
    obtain ⟨text, hink, hreads⟩ := hx.exists_keyInk hline
    have hadds := Scalar.adds_keyInk (column + 2) hx.bare hline s.page
    rw [hgap] at hadds
    rw [write_scalar]
    exact ⟨_, .scalar text _, hadds, hs, .scalar hcolumn hink
      (Scalar.isBreak_of_mem_keyInk hx.bare hline) (hreach rfl), .scalar hreads⟩
  | bytes hkey _ => cases hkey
  | word hx hK => exact exists_keyWord hcolumn hx hK hshort hgap hs

end Sheet

end FilterTree.Yaml
