import FilterTree.Proofs.Yaml.Ink
import FilterTree.Proofs.Yaml.Named
import FilterTree.Tree.Sketch

/-! A document has no characters but those that are allowed in one, whatever the texts in it are: what
is not allowed is escaped. -/

namespace FilterTree

namespace Yaml

namespace Page

/-- The second page is the first one with more allowed characters. -/
def Grows (p q : Page) : Prop :=
  ∃ w, p.Adds w q ∧ ∀ ch ∈ w, isAllowed ch = true

namespace Grows
variable {p q r : Page}

theorem refl (p : Page) : p.Grows p :=
  ⟨[], .refl p, nofun⟩

theorem trans (hpq : p.Grows q) (hqr : q.Grows r) : p.Grows r := by
  obtain ⟨v, hv, hallowed⟩ := hpq
  obtain ⟨w, hw, hallowed'⟩ := hqr
  exact ⟨v ++ w, hv.trans hw, List.forall_mem_append.mpr ⟨hallowed, hallowed'⟩⟩

end Grows

variable (p : Page)

theorem isAllowed_gap : ∀ ch ∈ p.gap, isAllowed ch = true := by
  unfold gap
  split
  · exact nofun
  · exact List.forall_mem_singleton.mpr rfl

theorem grows_mark {s : String} (hs : ∀ ch ∈ s.toList, isAllowed ch = true)
    (afterBlank atIndent : Bool) : p.Grows (p.mark s afterBlank atIndent) :=
  ⟨_, p.adds_mark s afterBlank atIndent, hs⟩

theorem grows_spaced : p.Grows p.spaced :=
  ⟨_, p.adds_spaced, p.isAllowed_gap⟩

theorem grows_property {s : String} (hs : ∀ ch ∈ s.toList, isAllowed ch = true) :
    p.Grows (p.property s) :=
  p.grows_spaced.trans (p.spaced.grows_mark hs false false)

theorem grows_breakLine {c : Char} (hc : isAllowed c = true) : p.Grows (p.breakLine c) :=
  ⟨_, p.adds_breakLine c, List.forall_mem_singleton.mpr hc⟩

theorem grows_indent (column : Nat) : p.Grows (p.indent column) := by
  have hspaces (q : Page) (n : Nat) : q.Grows (q.write (String.ofList (List.replicate n ' '))) :=
    ⟨_, q.adds_ofList _, fun ch hch => by rw [List.eq_of_mem_replicate hch]; rfl⟩
  have hfill (q : Page) : q.Grows (if q.column < column then
      { q.write (String.ofList (List.replicate (column - q.column) ' ')) with afterBlank := true }
      else q) := by
    split
    · exact hspaces q (column - q.column)
    · exact .refl q
  unfold indent
  split
  · exact (p.grows_breakLine rfl).trans (hfill _)
  · exact hfill p

theorem grows_blockLines (column : Nat) (atBreak : Bool) (cs : List Char)
    (hcs : ∀ c ∈ cs, isWritable c = true) : p.Grows (blockLines column atBreak cs p) := by
  induction cs generalizing atBreak p with
  | nil => exact .refl p
  | cons c cs ih =>
    have hc := isAllowed_of_isWritable (hcs c List.mem_cons_self)
    have hrest := fun d hd => hcs d (List.mem_cons_of_mem c hd)
    unfold blockLines
    split
    · exact (p.grows_breakLine hc).trans (ih _ true hrest)
    · have hindent : p.Grows (if atBreak then p.indent column else p) := by
        split
        · exact p.grows_indent column
        · exact .refl p
      have hpush (q : Page) : q.Grows { q with text := q.text.push c } :=
        ⟨[c], String.toList_push c, List.forall_mem_singleton.mpr hc⟩
      exact (hindent.trans (hpush _)).trans (ih _ false hrest)

theorem isAllowed_blockHints (cs : List Char) : ∀ ch ∈ (blockHints cs).toList, isAllowed ch = true := by
  have hlead (b : Bool) : ∀ ch ∈ (if b then "2" else "").toList, isAllowed ch = true := by
    cases b <;> exact List.all_eq_true.mp rfl
  have htail (b d : Bool) : ∀ ch ∈ (if b then "-" else if d then "+" else "").toList,
      isAllowed ch = true := by
    cases b <;> cases d <;> exact List.all_eq_true.mp rfl
  unfold blockHints
  split
  · next first last before _ _ =>
    rw [String.toList_append]
    refine List.forall_mem_append.mpr ⟨?_, ?_⟩
    · simpa using hlead (first = ' ' || isFoldBreak first)
    · simpa using htail (!isFoldBreak last) (before.isEmpty || startsWith isFoldBreak before)
  · exact nofun

theorem grows_block (column : Nat) {text : String} (htext : ∀ c ∈ text.toList, isWritable c = true) :
    p.Grows (p.block column text) := by
  refine Grows.trans (p.grows_property ?_)
    ((grows_breakLine _ rfl).trans (grows_blockLines _ column true _ htext))
  rw [String.toList_append]
  exact List.forall_mem_append.mpr ⟨List.forall_mem_singleton.mpr rfl, isAllowed_blockHints _⟩

end Page

namespace Scalar
variable {s : Scalar} {isKey : Bool}

theorem isWritable_of_style (h : s.style isKey = .block) : ∀ c ∈ s.text.toList, isWritable c = true := by
  have hallows : s.features.allowsBlock = true := by
    unfold style at h
    dsimp only at h
    split at h
    · cases h
    · split at h
      · next hblock => exact (Bool.and_eq_true_iff.mp hblock).2
      · split at h <;> cases h
  unfold features Features.ofChars at hallows
  split at hallows
  · next hnil =>
    rw [hnil]
    exact nofun
  · next first rest hcons =>
    simp only [Bool.and_eq_true, Bool.not_eq_true', Bool.or_eq_false_iff, Bool.not_eq_false']
      at hallows
    exact List.all_eq_true.mp hallows.2.2

end Scalar

theorem Page.grows_plain (column : Nat) {s : Scalar} {isKey : Bool} (h : s.style isKey = .plain)
    (p : Page) : p.Grows (p.plain column (!isKey) s.text) := by
  by_cases hempty : s.text = ""
  · rw [hempty]
    exact .refl p
  · obtain ⟨hplain, -⟩ := Scalar.plainable_of_style h hempty
    obtain ⟨w, hw, hwoven, -⟩ := Page.exists_plain column (!isKey) hplain p
    exact ⟨_, hw, List.forall_mem_append.mpr ⟨p.isAllowed_gap, hwoven.isAllowed⟩⟩

theorem isAllowed_shorthand {tag : String} (h : tag ∈ Scalar.tags) :
    ∀ ch ∈ (Tags.shorthand tag).toList, isAllowed ch = true := by
  have hall : Scalar.tags.all (fun tag => (Tags.shorthand tag).toList.all isAllowed) = true := by
    decide +kernel
  exact List.all_eq_true.mp (List.all_eq_true.mp hall tag h)

/-- Whatever the style of a scalar is, no character gets onto the page that may not stand there. -/
theorem Page.grows_scalar {column : Nat} (hcolumn : 0 < column) (isKey : Bool) {s : Scalar}
    (hs : s.tag ∈ Scalar.tags) (p : Page) : p.Grows (p.scalar column isKey s) := by
  have hquoted (q : Page) (double : Bool) {w t : List Char} (h : Quotes double w t) :
      ∀ ch ∈ q.gap ++ quoteMark double :: (w ++ [quoteMark double]), isAllowed ch = true :=
    List.forall_mem_append.mpr
      ⟨q.isAllowed_gap, (Inks.quoted h : Inks column _ _ false).isAllowed⟩
  have htag : p.Grows (if s.needsTag (s.style isKey) then p.property (Tags.shorthand s.tag) else p) := by
    split
    · exact p.grows_property (isAllowed_shorthand hs)
    · exact .refl p
  refine htag.trans ?_
  unfold scalar
  dsimp only
  generalize (if s.needsTag (s.style isKey) then p.property (Tags.shorthand s.tag) else p) = q
  cases h : s.style isKey with
  | plain => exact q.grows_plain column h
  | single =>
    obtain ⟨w, hw, hquotes⟩ := Page.exists_single hcolumn (!isKey)
      (Features.foldable_of_allowsSingle (Scalar.allowsSingle_of_style h)) q
    exact ⟨_, hw, hquoted q false hquotes⟩
  | double =>
    obtain ⟨w, t, hw, hquotes, -⟩ := Page.exists_double hcolumn (!isKey) s.text q
    exact ⟨_, hw, hquoted q true hquotes⟩
  | block => exact q.grows_block column (Scalar.isWritable_of_style h)

namespace Sketch

mutual

def IsTagged : Sketch → Prop
  | .scalar s _ => s.tag ∈ Scalar.tags
  | .sequence items _ => AreTagged items
  | .mapping entries _ => EntriesTagged entries

def AreTagged : List Sketch → Prop
  | [] => True
  | x :: xs => IsTagged x ∧ AreTagged xs

def EntriesTagged : List (Sketch × Sketch) → Prop
  | [] => True
  | (k, v) :: es => IsTagged k ∧ IsTagged v ∧ EntriesTagged es

end

theorem isTagged_ofText (s : String) : (ofText s).IsTagged :=
  List.mem_cons_self

theorem isTagged_of_ofScalar {path : List Nat} {v : Value} {x : Sketch}
    (h : ofScalar path v = .ok x) : x.IsTagged := by
  cases v with
  | int n =>
    rw [ofScalar] at h
    -- the condition is generalized, or else the power of ten that is the limit would be computed
    generalize (Value.int n).isLegible = b at h
    cases b with
    | true =>
      cases h
      simp [IsTagged, ofTagged, Scalar.tags]
    | false => cases h
  | null | bool | float | nan | text | bytes | date | moment =>
    cases h
    simp [IsTagged, ofTagged, ofText, Scalar.tags]
  | operator | join | buffer | list | tuple | set | frozenset | map | loop | foreign => cases h

/-! ### Layouts of values and trees -/

mutual

theorem isTagged_of_ofValue {leaf : Nat} {path trail : List Nat} {x : Sketch} : ∀ v : Value,
    ofValue leaf path trail v = .ok x → x.IsTagged
  | .list xs => fun h => by
    obtain ⟨ys, hys, rfl⟩ := except_map_eq_ok_iff.mp h
    exact areTagged_of_ofValues xs hys
  | .tuple xs => fun h => by
    obtain ⟨ys, hys, rfl⟩ := except_map_eq_ok_iff.mp h
    exact areTagged_of_ofValues xs hys
  | .map es => fun h => by
    obtain ⟨fs, hfs, rfl⟩ := except_map_eq_ok_iff.mp h
    exact entriesTagged_of_ofEntries es hfs
  | .null | .bool _ | .int _ | .float _ | .nan _ | .text _ | .operator _ | .join _ | .bytes _
  | .buffer _ | .date _ _ | .moment _ _ | .set _ | .frozenset _ | .loop _ | .foreign _ _ => fun h => by
    rw [ofValue.eq_def] at h
    exact isTagged_of_ofScalar h

theorem areTagged_of_ofValues {leaf : Nat} {path trail : List Nat} {index : Nat} :
    ∀ (xs : List Value) {ys : List Sketch}, ofValues leaf path trail index xs = .ok ys → AreTagged ys
  | [], _, h => by
    cases h
    trivial
  | x :: xs, _, h => by
    obtain ⟨y, hy, h⟩ := except_bind_eq_ok_iff.mp h
    obtain ⟨ys, hys, h⟩ := except_bind_eq_ok_iff.mp h
    cases h
    exact ⟨isTagged_of_ofValue x hy, areTagged_of_ofValues xs hys⟩

theorem entriesTagged_of_ofEntries {leaf : Nat} {path trail : List Nat} {index : Nat} :
    ∀ (es : List (Value × Value)) {fs : List (Sketch × Sketch)},
    ofEntries leaf path trail index es = .ok fs → EntriesTagged fs
  | [], _, h => by
    cases h
    trivial
  | (k, v) :: es, _, h => by
    obtain ⟨key, hkey, h⟩ := except_bind_eq_ok_iff.mp h
    obtain ⟨value, hvalue, h⟩ := except_bind_eq_ok_iff.mp h
    obtain ⟨fs, hfs, h⟩ := except_bind_eq_ok_iff.mp h
    cases h
    exact ⟨isTagged_of_ofValue k hkey, isTagged_of_ofValue v hvalue, entriesTagged_of_ofEntries es hfs⟩

end

end Sketch

/-! ### Documents -/

namespace Sheet
open Sketch

def Grows (s t : Sheet) : Prop :=
  s.page.Grows t.page

variable {s t : Sheet}

theorem Grows.onPage (h : s.Grows t) {f : Page → Page} (hf : ∀ p : Page, p.Grows (f p)) :
    s.Grows (t.onPage f) :=
  Page.Grows.trans h (hf t.page)

theorem isAllowed_name {name : String} {i : Identity} (h : s.name? (some i) = some name) :
    ∀ ch ∈ name.toList, isAllowed ch = true :=
  fun ch hch => (Mark.isAllowed_of_isWordChar ((isWord_of_name h).2 ch hch)).1

theorem grows_introduce (i : Option Identity) : s.Grows (s.introduce i) := by
  unfold introduce
  split
  · next i name hname =>
    refine s.page.grows_property ?_
    rw [String.toList_append]
    exact List.forall_mem_append.mpr ⟨List.forall_mem_singleton.mpr rfl, isAllowed_name hname⟩
  · exact .refl _

theorem grows_alias (i : Option Identity) :
    s.Grows (s.onPage (·.property ("*" ++ (s.name? i).getD ""))) := by
  refine s.page.grows_property ?_
  rw [String.toList_append]
  refine List.forall_mem_append.mpr ⟨List.forall_mem_singleton.mpr rfl, ?_⟩
  cases hname : s.name? i with
  | none => exact nofun
  | some name =>
    cases i with
    | none => cases hname
    | some i => exact isAllowed_name hname

theorem grows_hollow {left right : String} (hleft : ∀ ch ∈ left.toList, isAllowed ch = true)
    (hright : ∀ ch ∈ right.toList, isAllowed ch = true) (p : Page) : p.Grows (hollow left right p) :=
  (p.grows_spaced.trans (Page.grows_mark _ hleft true false)).trans
    (Page.grows_mark _ hright false false)

theorem grows_entryMark {mark : String} (hmark : ∀ ch ∈ mark.toList, isAllowed ch = true)
    (column : Nat) (p : Page) : p.Grows ((p.indent column).spaced.mark mark false true) :=
  ((p.grows_indent column).trans (Page.grows_spaced _)).trans (Page.grows_mark _ hmark false true)

mutual

theorem grows_write (outer : Option Nat) (inMapping isKey : Bool) : ∀ (x : Sketch) (s : Sheet),
    x.IsTagged → s.Grows (s.write outer inMapping isKey x)
  | .scalar x i, s, hx => by
    unfold write
    split
    · exact grows_alias i
    · exact (grows_introduce i).onPage (Page.grows_scalar (Nat.zero_lt_succ _) isKey hx)
  | .sequence items i, s, hx => by
    unfold write
    split
    · exact grows_alias i
    · refine Page.Grows.trans (grows_introduce i) ?_
      dsimp only
      split
      · exact grows_hollow (List.all_eq_true.mp rfl) (List.all_eq_true.mp rfl) _
      · exact grows_writeItems _ items _ hx
  | .mapping entries i, s, hx => by
    unfold write
    split
    · exact grows_alias i
    · refine Page.Grows.trans (grows_introduce i) ?_
      dsimp only
      split
      · exact grows_hollow (List.all_eq_true.mp rfl) (List.all_eq_true.mp rfl) _
      · exact grows_writeEntries _ entries _ hx

theorem grows_writeItems (column : Nat) : ∀ (items : List Sketch) (s : Sheet), AreTagged items →
    s.Grows (s.writeItems column items)
  | [], s, _ => .refl s.page
  | x :: xs, s, ⟨hx, hxs⟩ => by
    have hmark : s.Grows (s.onPage fun p => (p.indent column).spaced.mark "-" false true) :=
      grows_entryMark (List.all_eq_true.mp rfl) column s.page
    exact Page.Grows.trans (Page.Grows.trans hmark (grows_write (some column) false false x _ hx))
      (grows_writeItems column xs _ hxs)

theorem grows_writeEntries (column : Nat) : ∀ (entries : List (Sketch × Sketch)) (s : Sheet),
    EntriesTagged entries → s.Grows (s.writeEntries column entries)
  | [], s, _ => .refl s.page
  | (k, v) :: es, s, ⟨hk, hv, hes⟩ => by
    have hcolon : ∀ ch ∈ ":".toList, isAllowed ch = true := List.forall_mem_singleton.mpr rfl
    have hkey (t : Sheet) : t.Grows (
        if t.isSimpleKey k then
          (t.write (some column) true true k).onPage (·.mark ":" false false)
        else
          ((t.onPage (·.spaced.mark "?" false true)).write (some column) true false k).onPage
            fun p => (p.indent column).spaced.mark ":" false true) := by
      split
      · exact (grows_write (some column) true true k t hk).onPage fun p =>
          p.grows_mark hcolon false false
      · have hmark : t.Grows (t.onPage (·.spaced.mark "?" false true)) :=
          t.page.grows_spaced.trans (Page.grows_mark _ (List.all_eq_true.mp rfl) false true)
        exact Grows.onPage (Page.Grows.trans hmark (grows_write (some column) true false k _ hk))
          (grows_entryMark hcolon column)
    have hindent : s.Grows (s.onPage (·.indent column)) := s.page.grows_indent column
    exact Page.Grows.trans (Page.Grows.trans (Page.Grows.trans hindent (hkey _))
      (grows_write (some column) true false v _ hv)) (grows_writeEntries column es _ hes)

end

end Sheet

end Yaml

namespace Tree
open Yaml

mutual

theorem isTagged_of_sketch {path : List Nat} : ∀ {t : Tree} {x : Sketch}, t.sketch path = .ok x →
    x.IsTagged
  | .leaf _ _ c, x, h => by
    obtain ⟨key, hkey, h⟩ := except_bind_eq_ok_iff.mp h
    obtain ⟨value, hvalue, h⟩ := except_bind_eq_ok_iff.mp h
    cases h
    exact ⟨Sketch.isTagged_ofText _, Sketch.isTagged_of_ofScalar hkey, Sketch.isTagged_ofText _,
      Sketch.isTagged_ofText _, Sketch.isTagged_ofText _, Sketch.isTagged_of_ofValue _ hvalue, trivial⟩
  | .branch _ _ slots, x, h => by
    obtain ⟨xs, hxs, rfl⟩ := except_map_eq_ok_iff.mp h
    exact areTagged_of_sketchOfSlots hxs

theorem areTagged_of_sketchOfSlots {path : List Nat} {index : Nat} :
    ∀ {slots : List (Join × Tree)} {xs : List Sketch}, sketchOfSlots path index slots = .ok xs →
    Sketch.AreTagged xs
  | [], _, h => by
    cases h
    trivial
  | (j, t) :: rest, _, h => by
    obtain ⟨payload, hpayload, h⟩ := except_bind_eq_ok_iff.mp h
    obtain ⟨others, hothers, h⟩ := except_bind_eq_ok_iff.mp h
    cases h
    exact ⟨⟨Sketch.isTagged_ofText _, Sketch.isTagged_ofText _, Sketch.isTagged_ofText _,
      isTagged_of_sketch hpayload, trivial⟩, areTagged_of_sketchOfSlots hothers⟩

end

end Tree

end FilterTree
