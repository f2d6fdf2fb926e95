import FilterTree.Proofs.Json.RoundTrip
import FilterTree.Proofs.Yaml.Expressed
import FilterTree.Proofs.Yaml.Named
import FilterTree.Proofs.Yaml.Timed

/-! Values laid out for writing. Each has a layout that can be read as long as its keys are within the
reach of their colons. What is read is the value itself where it is portable and its texts last: each
is written in a style that it can be read back from. -/

namespace FilterTree.Yaml

namespace Scalar

/-! ### Words -/

theorem isMultiline_of_allowsPlain {s : Scalar} (hne : s.text ≠ "")
    (h : s.features.allowsPlain = true) :
    s.features.isEmpty = false ∧ s.features.isMultiline = false := by
  obtain ⟨c, cs, hcons⟩ := List.exists_cons_of_ne_nil (l := s.text.toList)
    fun hnil => hne (String.toList_eq_nil_iff.mp hnil)
  unfold features Features.ofChars at h ⊢
  rw [hcons] at h ⊢
  dsimp only at h ⊢
  simp only [Bool.and_eq_true, Bool.not_eq_true'] at h
  exact ⟨rfl, h.1.2⟩

theorem isWord_of_spelling {tag text : String} {P : Value → Prop} (hne : text ≠ "")
    (htag : tagOfSpelling text = tag) (hplain : (Features.ofChars text.toList).allowsPlain = true)
    (hreads : IsReading tag text P) : IsWord P ⟨tag, text, false⟩ := by
  have hstyle (isKey : Bool) : style ⟨tag, text, false⟩ isKey = .plain := by
    obtain ⟨hempty, hline⟩ := isMultiline_of_allowsPlain (s := ⟨tag, text, false⟩) hne hplain
    have hallows : (features ⟨tag, text, false⟩).allowsPlain = true := hplain
    simp [style, htag, hempty, hline, hallows]
  refine ⟨fun isKey => ⟨rfl, ?_, fun _ => hne⟩, hstyle, ?_⟩
  · rw [hstyle]
    simp [needsTag, htag]
  · rw [htag]
    exact hreads

theorem isWord_null : IsWord (· = .null) ⟨Tags.null, "null", false⟩ :=
  isWord_of_spelling (by decide) (by decide)
    (Features.allowsPlain_of_isInline (List.all_eq_true.mp rfl)
      (Features.isMark_of_not_mem (by decide) _) rfl)
    ⟨by decide, fun _ => ⟨.null, rfl, Value.IsAtom.same_self trivial nofun, rfl⟩⟩

theorem isWord_bool (b : Bool) :
    IsWord (· = .bool b) ⟨Tags.bool, if b then "true" else "false", false⟩ := by
  cases b <;> exact isWord_of_spelling (by decide) (by decide)
    (Features.allowsPlain_of_isInline (List.all_eq_true.mp rfl)
      (Features.isMark_of_not_mem (by decide) _) rfl)
    ⟨by decide, fun _ => ⟨.bool _, rfl, Value.IsAtom.same_self trivial nofun, rfl⟩⟩

theorem isWord_of_spelled {tag text : String} {d : Decimal} {negative : Bool} {P : Value → Prop}
    (htext : text.toList = d.spelled negative)
    (htag : tagOfSpelling (String.ofList (d.spelled negative)) = tag)
    (hreads : IsReading tag (String.ofList (d.spelled negative)) P) :
    IsWord P ⟨tag, text, false⟩ := by
  obtain rfl : String.ofList (d.spelled negative) = text := by
    rw [← htext, String.ofList_toList]
  obtain ⟨c, tail, hcons, -⟩ := d.exists_spelled_cons negative
  refine isWord_of_spelling (fun hempty => ?_) htag ?_ hreads
  · have hnil := congrArg String.toList hempty
    rw [String.toList_ofList, hcons] at hnil
    cases hnil
  · rw [String.toList_ofList]
    exact Features.allowsPlain_spelled d negative

theorem isWord_int {n : Int} (h : (Value.int n).isLegible = true) :
    IsWord (· = .int n) ⟨Tags.int, toString n, false⟩ := by
  refine isWord_of_spelled (Json.toList_toString n) (tagOfSpelling_of_whole rfl rfl)
    ⟨by decide, fun serial => ⟨.int n, ?_, Value.IsAtom.same_self trivial nofun, rfl⟩⟩
  have hread := @readInt_spelled (Json.wholeDecimal n.natAbs) (decide (n < 0)) rfl rfl
    (Json.length_toDigits_le h)
  have hvalue : digitsValue (Json.wholeDecimal n.natAbs).whole = n.natAbs :=
    digitsValue_toDigits n.natAbs
  rw [hvalue, Json.signed_natAbs] at hread
  exact hread

theorem isWord_float {x : Double} (h : x.IsCanonical) :
    IsWord (· = .float x) ⟨Tags.float, Sketch.floatText x, false⟩ := by
  have hsame : (Value.float x).same true (.float x) = true := Value.IsAtom.same_self h nofun
  cases x with
  | infinite negative =>
    cases negative with
    | false =>
      exact isWord_of_spelling (by decide) (by decide)
        (Features.allowsPlain_of_isInline (List.all_eq_true.mp rfl)
          (Features.isMark_of_not_mem (by decide) _) rfl)
        ⟨by decide, fun _ => ⟨_, rfl, hsame, rfl⟩⟩
    | true =>
      exact isWord_of_spelling (by decide) (by decide)
        (Features.allowsPlain_of_isInline (List.all_eq_true.mp rfl) (Features.isMark_minus rfl) rfl)
        ⟨by decide, fun _ => ⟨_, rfl, hsame, rfl⟩⟩
  | finite negative m e =>
    obtain ⟨d, htext, hfraction, hvalue⟩ := Sketch.exists_floatText h
    refine isWord_of_spelled htext (tagOfSpelling_of_fraction hfraction)
      ⟨by decide, fun serial => ⟨_, ?_, hsame, rfl⟩⟩
    rw [← hvalue]
    exact readFloat_spelled

theorem isWord_nan : IsWord (· = .nan .yaml) ⟨Tags.float, ".nan", false⟩ :=
  isWord_of_spelling (by decide) (by decide)
    (Features.allowsPlain_of_isInline (List.all_eq_true.mp rfl)
      (Features.isMark_of_not_mem (by decide) _) rfl)
    ⟨by decide, fun _ => ⟨.nan .yaml, rfl, Value.IsAtom.same_self trivial nofun, rfl⟩⟩

theorem isWord_date {d : Date} (h : d.isValid = true) :
    IsWord (fun v => ∃ serial, v = .date d serial) ⟨Tags.timestamp, d.iso, false⟩ := by
  obtain ⟨c, cs, hcons, -⟩ := exists_iso_cons d
  refine isWord_of_spelling (fun hempty => ?_) (tagOfSpelling_iso h) (Features.allowsPlain_iso d)
    (isReading_iso h)
  rw [hempty] at hcons
  cases hcons

theorem isWord_moment {t : Moment} (h : t.isValid = true)
    (hoffset : ∀ o, t.offset = some o → 60000000 ∣ o) :
    IsWord (fun v => ∃ serial, v = .moment t serial) ⟨Tags.timestamp, t.iso " ", false⟩ := by
  refine isWord_of_spelling (fun hempty => ?_) (tagOfSpelling_moment h hoffset)
    (Features.allowsPlain_moment hoffset) (isReading_moment h hoffset)
  have hwhole := Moment.toList_iso hoffset
  rw [hempty] at hwhole
  cases List.append_eq_nil_iff.mp hwhole.symm |>.2

/-! ### Texts -/

/-- Whether a scalar is written in a style that its text can be read back from. Between single
quotes a next-line character would be taken for a common line break. -/
structure Lasts (column : Nat) (isKey : Bool) (s : Scalar) : Prop where
  lines : s.style isKey = .single → '\x85' ∉ s.text.toList
  fits : s.style isKey = .double → Page.Fits column s.text.toList

def ofText (s : String) : Scalar :=
  ⟨Tags.str, s, false⟩

section Texts
variable {column : Nat} {isKey : Bool} {s : String}

theorem tag_of_style_plain (h : (ofText s).style isKey = .plain) : tagOfSpelling s = Tags.str := by
  unfold style at h
  dsimp only at h
  split at h
  · next hplain =>
    simp only [Bool.and_eq_true] at hplain
    exact (of_decide_eq_true hplain.1.1.2).symm
  · split at h
    · cases h
    · split at h <;> cases h

theorem isBare_ofText (s : String) (isKey : Bool) : (ofText s).IsBare isKey where
  asBlock := rfl
  untagged := by
    unfold needsTag
    split
    · next hplain => simp [ofText, tag_of_style_plain hplain]
    · simp [ofText]
  nonempty hplain hempty := by
    have htag := tag_of_style_plain hplain
    obtain rfl : s = "" := hempty
    exact absurd htag (by decide)

theorem reread_ofText (h : (ofText s).Lasts column isKey) : (ofText s).reread isKey = s := by
  unfold reread
  split
  · next hsingle =>
    rw [relined_eq_self (h.lines hsingle)]
    exact String.ofList_toList
  · rfl

theorem draws_ofText (column : Nat) (isKey : Bool) (s : String) :
    (ofText s).Draws column isKey fun v => ∃ t, v = .text t ∧ ((ofText s).Lasts column isKey → t = s) := by
  refine ⟨isBare_ofText s isKey, fun text htext => ?_⟩
  have htag : Compose.scalarTag none ((ofText s).style isKey = .plain) text = Tags.str := by
    unfold Compose.scalarTag
    dsimp only
    split
    · next hplain =>
      have hstyle := of_decide_eq_true hplain
      have hsame : text = s := by
        have hfits : (ofText s).Fits column isKey := fun hdouble => by
          rw [hstyle] at hdouble
          cases hdouble
        rw [htext hfits, reread, if_neg (by rw [hstyle]; decide)]
        rfl
      rw [hsame]
      exact tag_of_style_plain hstyle
    · rfl
  rw [htag]
  refine ⟨by decide, fun serial =>
    ⟨.text text, rfl, Value.IsAtom.same_self trivial (fun h => Value.noConfusion h),
    text, rfl, fun h => ?_⟩⟩
  rw [htext h.fits, reread_ofText h]

end Texts

theorem isShort_ofBytes (bs : List UInt8) : (ofBytes bs).isShort = false := by
  by_cases hne : bs = []
  · subst hne
    rfl
  · obtain ⟨-, s, htext, -⟩ := exists_closes_ofBytes 0 hne .empty
    refine Bool.eq_false_iff.mpr fun hshort => ?_
    have hbreak := isFoldBreak_of_features (isMultiline_of_isShort hshort) '\n' (by simp [htext])
    cases hbreak

end Scalar

/-! ### Values -/

def isShortKey : Value → Bool
  | .text s => (Scalar.ofText s).isShort
  | _ => false

def LastsAsKey (column : Nat) : Value → Prop
  | .text s => (Scalar.ofText s).Lasts (column + 2) (Scalar.ofText s).isShort ∧
      ((Scalar.ofText s).isShort = true → (Scalar.ofText s).keyInk.length ≤ 1024)
  | _ => False

mutual

/-- Whether all texts in a value last, where it stands inside a collection at a column. A sequence
under a key that is on one line stays at that column. -/
def Lasts (column : Nat) (isOpen : Bool) : Value → Prop
  | .text s => (Scalar.ofText s).Lasts (column + 2) false
  | .list vs => AllLast (if isOpen then column else column + 2) vs
  | .map es => EntriesLast (column + 2) es
  | _ => True

def AllLast (column : Nat) : List Value → Prop
  | [] => True
  | v :: vs => Lasts column false v ∧ AllLast column vs

def EntriesLast (column : Nat) : List (Value × Value) → Prop
  | [] => True
  | (k, v) :: es => LastsAsKey column k ∧ Lasts column (isShortKey k) v ∧ EntriesLast column es

end

section Sufficient
variable {column : Nat} {s : String}

theorem Scalar.lasts_of_not_mem (h : '\x85' ∉ s.toList) (hcolumn : column < Page.width)
    (isKey : Bool) : (Scalar.ofText s).Lasts column isKey :=
  ⟨fun _ => h, fun _ => .inl hcolumn⟩

theorem Page.length_escaped_le (c : Char) : (Page.escaped c).toList.length ≤ 10 := by
  have hvalid : c.toNat < 0xd800 ∨ 0xdfff < c.toNat ∧ c.toNat < 0x110000 := c.valid
  unfold Page.escaped
  split
  · simp
  · have hcode (letter : Char) (width : Nat) (hwidth : 0 < width ∧ width ≤ 8)
        (hroom : c.toNat < 16 ^ width) :
        ('\\' :: letter :: (hexText width c.toNat).toUpper.toList).length ≤ 10 := by
      rw [List.length_cons, List.length_cons, (hexNumber?_hexText hwidth.1 hroom).1]
      omega
    dsimp only
    split
    · simpa [String.toList_append] using hcode 'x' 2 (by decide) (by omega)
    · split
      · simpa [String.toList_append] using hcode 'u' 4 (by decide) (by omega)
      · simpa [String.toList_append] using hcode 'U' 8 (by decide) (by omega)

theorem length_flatMap_le {f : Char → List Char} {n : Nat} (h : ∀ c, (f c).length ≤ n)
    (cs : List Char) : (cs.flatMap f).length ≤ n * cs.length := by
  induction cs with
  | nil => exact Nat.zero_le _
  | cons c cs ih =>
    rw [List.flatMap_cons, List.length_append, List.length_cons, Nat.mul_succ]
    have hc := h c
    omega

theorem Scalar.length_keyInk_le (s : Scalar) : s.keyInk.length ≤ 10 * s.text.length + 2 := by
  rw [← String.length_toList]
  unfold keyInk
  split
  · omega
  · have hquotes := length_flatMap_le (f := Page.doubledQuote) (n := 2)
      (fun c => by unfold Page.doubledQuote; split <;> simp) s.text.toList
    simp only [List.length_cons, List.length_append, List.length_nil]
    omega
  · have hescapes := length_flatMap_le
      (f := fun c => if Page.isBare c then [c] else (Page.escaped c).toList) (n := 10)
      (fun c => by
        split
        · simp
        · exact Page.length_escaped_le c) s.text.toList
    simp only [List.length_cons, List.length_append, List.length_nil]
    omega

theorem lastsAsKey_of_length_le (h : '\x85' ∉ s.toList) (hcolumn : column + 2 < Page.width)
    (hlength : s.length ≤ 102) : LastsAsKey column (.text s) := by
  refine ⟨Scalar.lasts_of_not_mem h hcolumn _, fun _ => ?_⟩
  have hkey : (Scalar.ofText s).keyInk.length ≤ 10 * s.length + 2 :=
    (Scalar.ofText s).length_keyInk_le
  omega

end Sufficient

def isClearKey (column : Nat) : Value → Bool
  | .text s =>
    !s.toList.contains '\x85' && decide (column + 2 < Page.width) && decide (s.length ≤ 102)
  | _ => false

mutual

/-- Whether a value has no next-line characters, no overlong keys and not too many levels. -/
def isClear (column : Nat) : Value → Bool
  | .text s => !s.toList.contains '\x85' && decide (column + 2 < Page.width)
  | .list vs => areClear (column + 2) vs
  | .map es => entriesClear (column + 2) es
  | _ => true

def areClear (column : Nat) : List Value → Bool
  | [] => true
  | v :: vs => isClear column v && areClear column vs

def entriesClear (column : Nat) : List (Value × Value) → Bool
  | [] => true
  | (k, v) :: es => isClearKey column k && isClear column v && entriesClear column es

end

theorem lastsAsKey_of_isClearKey {column : Nat} {k : Value} (h : isClearKey column k = true)
    {c : Nat} (hc : c ≤ column) : LastsAsKey c k := by
  cases k
  case text s =>
    simp only [isClearKey, Bool.and_eq_true, decide_eq_true_eq, Bool.not_eq_true'] at h
    obtain ⟨⟨hmem, hcolumn⟩, hlength⟩ := h
    exact lastsAsKey_of_length_le (by simpa using hmem) (by omega) hlength
  all_goals cases h

mutual

theorem lasts_of_isClear (column : Nat) (isOpen : Bool) : ∀ (v : Value), isClear column v = true →
    ∀ c ≤ column, Lasts c isOpen v
  | .text s, h, c, hc => by
    simp only [isClear, Bool.and_eq_true, decide_eq_true_eq, Bool.not_eq_true'] at h
    exact Scalar.lasts_of_not_mem (by simpa using h.1) (by omega) false
  | .list vs, h, c, hc => by
    rw [Lasts]
    exact allLast_of_areClear (column + 2) vs h _ (by split <;> omega)
  | .map es, h, c, hc => entriesLast_of_entriesClear (column + 2) es h _ (by omega)
  | .null, _, _, _ | .bool _, _, _, _ | .int _, _, _, _ | .float _, _, _, _ | .nan _, _, _, _
  | .operator _, _, _, _ | .join _, _, _, _ | .bytes _, _, _, _ | .buffer _, _, _, _
  | .date _ _, _, _, _ | .moment _ _, _, _, _ | .tuple _, _, _, _ | .set _, _, _, _
  | .frozenset _, _, _, _ | .loop _, _, _, _ | .foreign _ _, _, _, _ => trivial

theorem allLast_of_areClear (column : Nat) : ∀ (vs : List Value), areClear column vs = true →
    ∀ c ≤ column, AllLast c vs
  | [], _, _, _ => trivial
  | v :: vs, h, c, hc => by
    obtain ⟨hv, hvs⟩ := Bool.and_eq_true_iff.mp h
    exact ⟨lasts_of_isClear column false v hv c hc, allLast_of_areClear column vs hvs c hc⟩

theorem entriesLast_of_entriesClear (column : Nat) : ∀ (es : List (Value × Value)),
    entriesClear column es = true → ∀ c ≤ column, EntriesLast c es
  | [], _, _, _ => trivial
  | (k, v) :: es, h, c, hc => by
    obtain ⟨hkv, hes⟩ := Bool.and_eq_true_iff.mp h
    obtain ⟨hk, hv⟩ := Bool.and_eq_true_iff.mp hkv
    exact ⟨lastsAsKey_of_isClearKey hk hc, lasts_of_isClear column (isShortKey k) v hv c hc,
      entriesLast_of_entriesClear column es hes c hc⟩

end

/-! ### Layouts -/

def reachesColon : Value → Bool
  | .text s => !(Scalar.ofText s).isShort || decide ((Scalar.ofText s).keyInk.length ≤ 1024)
  | _ => true

mutual

def isInReach : Value → Bool
  | .list vs => areInReach vs
  | .map es => entriesInReach es
  | _ => true

def areInReach : List Value → Bool
  | [] => true
  | v :: vs => isInReach v && areInReach vs

def entriesInReach : List (Value × Value) → Bool
  | [] => true
  | (k, v) :: es => reachesColon k && isInReach v && entriesInReach es

end

/-- What may be read for a value without parts: of a text another text, the same if it lasts. Dates may
be given by the name of another one, and bytes or what is not a number are not looked at. -/
def Echoes (column : Nat) (isKey : Bool) : Value → Value → Prop
  | .text s, w => ∃ t, w = .text t ∧ ((Scalar.ofText s).Lasts (column + 2) isKey → t = s)
  | .null, w => w = .null
  | .bool b, w => w = .bool b
  | .int n, w => w = .int n
  | .float x, w => w = .float x
  | _, _ => True

def Faithful (column : Nat) (isOpen : Bool) (v w : Value) : Prop :=
  v.Portable → v.isJson = true → Lasts column isOpen v → w = v

def AllFaithful (column : Nat) (vs ws : List Value) : Prop :=
  Value.AllPortable vs → Value.areJson vs = true → AllLast column vs → ws = vs

def EntriesFaithful (column : Nat) (es ds : List (Value × Value)) : Prop :=
  Value.EntriesPortable es → Value.entriesJson es = true → EntriesLast column es → ds = es

theorem Echoes.faithful {column : Nat} {isOpen : Bool} {v w : Value} (hv : v.IsAtom)
    (h : Echoes column false v w) : Faithful column isOpen v w := by
  intro hp hj hl
  cases v
  case null | bool | int | float => exact h
  case text s =>
    obtain ⟨t, rfl, hsame⟩ := h
    rw [hsame hl]
  case nan | bytes | date | moment => exact absurd hp id
  all_goals exact absurd hv id

theorem Echoes.eq_of_lastsAsKey {column : Nat} {s : String} {w : Value}
    (h : Echoes column (Scalar.ofText s).isShort (.text s) w) (hlasts : LastsAsKey column (.text s)) :
    w = .text s := by
  obtain ⟨t, rfl, hsame⟩ := h
  rw [hsame hlasts.1]

/-! ### Weakening -/

theorem DrawsScalar.mono {column : Nat} {isKey : Bool} {P Q : Value → Prop} {x : Sketch}
    (h : DrawsScalar column isKey P x) (hPQ : ∀ v, P v → Q v) : DrawsScalar column isKey Q x := by
  cases h with
  | bare hs hreach =>
    exact .bare ⟨hs.bare, fun text htext => (hs.reads text htext).mono hPQ⟩ hreach
  | bytes hkey hP => exact .bytes hkey (hPQ _ hP)
  | word hs hP => exact .word (hs.mono hPQ) fun v => hPQ v (hP v)

theorem Draws.mono {column : Nat} {isOpen : Bool} {P Q : Value → Prop} {x : Sketch}
    (h : Draws column isOpen P x) (hPQ : ∀ v, P v → Q v) : Draws column isOpen Q x := by
  cases h with
  | scalar hs => exact .scalar (hs.mono hPQ)
  | list hxs hP => exact .list hxs fun vs hvs => hPQ _ (hP vs hvs)
  | map hes hP => exact .map hes fun ps hps => hPQ _ (hP ps hps)

/-! ### Values -/

theorem drawsScalar_of_word {column : Nat} {isKey : Bool} {P : Value → Prop} {s : Scalar}
    (h : s.IsWord P) (hkey : isKey = true → s.isShort = true) :
    DrawsScalar column isKey P (.scalar s none) := by
  refine .bare (h.draws _ isKey) fun hk => ?_
  have hshort := hkey hk
  simp only [Scalar.isShort, Bool.and_eq_true, decide_eq_true_eq] at hshort
  rw [h.keyInk, String.length_toList]
  omega

theorem drawsScalar_ofScalar (path : List Nat) (column : Nat) {isKey : Bool} {v : Value} {x : Sketch}
    (hv : v.IsAtom) (hx : Sketch.ofScalar path v = .ok x) (hkey : isKey = true → x.isShort = true)
    (hreach : isKey = true → reachesColon v = true) :
    DrawsScalar column isKey (Echoes column isKey v) x := by
  have hword {P : Value → Prop} {s : Scalar} (h : s.IsWord P) {serial : Option Nat}
      (hx : x = .scalar s (serial.map (.read path))) (hP : ∀ w, Echoes column isKey v w) :
      DrawsScalar column isKey (Echoes column isKey v) x := by
    subst hx
    cases serial with
    | none => exact drawsScalar_of_word (h.mono fun w _ => hP w) hkey
    | some n => exact .word (h.mono fun w _ => hP w) hP
  cases v
  case null =>
    cases hx
    exact drawsScalar_of_word Scalar.isWord_null hkey
  case bool b =>
    cases hx
    exact drawsScalar_of_word (Scalar.isWord_bool b) hkey
  case int n =>
    have hexact := Sketch.exactIf_ofScalar_int path n
    rw [hx] at hexact
    have hlegible := hexact.eq_true
    rw [Sketch.ofScalar, if_pos hlegible] at hx
    cases hx
    exact drawsScalar_of_word (Scalar.isWord_int hlegible) hkey
  case float y =>
    cases hx
    exact drawsScalar_of_word (Scalar.isWord_float hv) hkey
  case nan origin =>
    cases hx
    exact drawsScalar_of_word (Scalar.isWord_nan.mono fun _ _ => trivial) hkey
  case text s =>
    cases hx
    refine .bare (Scalar.draws_ofText (column + 2) isKey s) fun hk => ?_
    have hcolon := hreach hk
    have hshort : (Scalar.ofText s).isShort = true := hkey hk
    have hlength : (Scalar.ofText s).keyInk.length ≤ 1024 := by
      simpa [reachesColon, hshort] using hcolon
    exact hlength
  case bytes bs =>
    cases hx
    have hlong : (Scalar.ofBytes bs).isShort = false := Scalar.isShort_ofBytes bs
    refine .bytes (Bool.eq_false_iff.mpr fun hk => ?_) trivial
    have hshort : (Scalar.ofBytes bs).isShort = true := hkey hk
    rw [hlong] at hshort
    cases hshort
  case date d serial =>
    cases hx
    exact hword (Scalar.isWord_date hv) rfl fun _ => trivial
  case moment t serial =>
    cases hx
    exact hword (Scalar.isWord_moment hv.1 hv.2) rfl fun _ => trivial
  all_goals exact absurd hv id

theorem entriesFaithful_cons {column : Nat} {k v key w : Value} {es ps : List (Value × Value)}
    (hk : k.isText = true → Echoes column (isShortKey k) k key)
    (hv : k.isText = true → Faithful column (isShortKey k) v w)
    (hes : EntriesFaithful column es ps) : EntriesFaithful column ((k, v) :: es) ((key, w) :: ps) := by
  rintro ⟨htext, -, hp, hps⟩ hj ⟨hlk, hl, hls⟩
  obtain ⟨hkv, hjs⟩ := Bool.and_eq_true_iff.mp hj
  have hvalue := hv htext hp (Bool.and_eq_true_iff.mp hkv).2 hl
  cases k
  case text s => rw [(hk rfl).eq_of_lastsAsKey hlk, hvalue, hes hps hjs hls]
  all_goals cases htext

section Induction
variable (leaf : Nat) (path : List Nat)

theorem draws_of_isAtom (trail : List Nat) (column : Nat) (isOpen : Bool) {v : Value} {x : Sketch}
    (hv : v.IsAtom) (h : Sketch.ofValue leaf path trail v = .ok x) :
    Draws column isOpen (Faithful column isOpen v) x := by
  rw [Sketch.ofValue_of_isAtom leaf path trail v hv] at h
  have hscalar : DrawsScalar column false (Echoes column false v) x :=
    drawsScalar_ofScalar path column hv h nofun nofun
  exact .scalar (hscalar.mono fun w hw => hw.faithful hv)

theorem isShort_of_ofScalar {k : Value} {x : Sketch} (hk : k.IsAtom)
    (hx : Sketch.ofScalar path k = .ok x) (htext : k.isText = true) :
    x.identity = none ∧ x.isShort = isShortKey k := by
  cases k
  case text s =>
    cases hx
    exact ⟨rfl, rfl⟩
  all_goals cases htext

mutual

/-- A stored value that has a layout is drawn faithfully by it, wherever it stands, as long as its keys are
found again. -/
theorem draws_of_ofValue (trail : List Nat) (column : Nat) (isOpen : Bool) : ∀ v : Value, v.IsStored →
    isInReach v = true → ∀ {x : Sketch}, Sketch.ofValue leaf path trail v = .ok x →
    Draws column isOpen (Faithful column isOpen v) x
  | .list vs, hv, hr => fun h => by
    rw [Sketch.ofValue] at h
    obtain ⟨xs, hxs, rfl⟩ := except_map_eq_ok_iff.mp h
    refine .list (drawsAll_of_ofValues trail 0 _ vs hv hr hxs) fun ws hws hp hj hl => ?_
    rw [hws hp hj hl]
  | .map es, hv, hr => fun h => by
    rw [Sketch.ofValue] at h
    obtain ⟨xs, hxs, rfl⟩ := except_map_eq_ok_iff.mp h
    refine .map (drawsEntries_of_ofEntries trail 0 _ es hv hr hxs) fun ps hps hp hj hl => ?_
    rw [hps hp hj hl]
    exact Json.mapOf_of_portable hp
  | .null, hv, _ | .bool _, hv, _ | .int _, hv, _ | .float _, hv, _ | .nan _, hv, _ | .text _, hv, _
  | .bytes _, hv, _ | .date _ _, hv, _ | .moment _ _, hv, _ => fun h =>
    draws_of_isAtom leaf path trail column isOpen (by exact hv) h
  | .operator _, hv, _ | .join _, hv, _ | .buffer _, hv, _ | .tuple _, hv, _ | .set _, hv, _
  | .frozenset _, hv, _ | .loop _, hv, _ | .foreign _ _, hv, _ => absurd hv id

theorem drawsAll_of_ofValues (trail : List Nat) (index column : Nat) : ∀ vs : List Value,
    Value.AreStored vs → areInReach vs = true →
    ∀ {xs : List Sketch}, Sketch.ofValues leaf path trail index vs = .ok xs →
    DrawsAll column (AllFaithful column vs) xs
  | [], _, _ => fun h => by
    cases h
    exact .nil fun _ _ _ => rfl
  | v :: vs, ⟨hv, hvs⟩, hr => fun h => by
    obtain ⟨hrv, hrvs⟩ := Bool.and_eq_true_iff.mp hr
    rw [Sketch.ofValues] at h
    obtain ⟨x, hx, h⟩ := except_bind_eq_ok_iff.mp h
    obtain ⟨xs, hxs, h⟩ := except_bind_eq_ok_iff.mp h
    cases h
    refine .cons (draws_of_ofValue (index :: trail) column false v hv hrv hx)
      (drawsAll_of_ofValues trail (index + 1) column vs hvs hrvs hxs) fun w ws hw hws hp hj hl => ?_
    obtain ⟨hjv, hjs⟩ := Bool.and_eq_true_iff.mp hj
    rw [hw hp.1 hjv hl.1, hws hp.2 hjs hl.2]

theorem drawsEntries_of_ofEntries (trail : List Nat) (index column : Nat) :
    ∀ es : List (Value × Value), Value.EntriesStored es → entriesInReach es = true →
    ∀ {xs : List (Sketch × Sketch)}, Sketch.ofEntries leaf path trail index es = .ok xs →
    DrawsEntries column (EntriesFaithful column es) xs
  | [], _, _ => fun h => by
    cases h
    exact .nil fun _ _ _ => rfl
  | (k, v) :: es, ⟨hk, hv, hes⟩, hr => fun h => by
    obtain ⟨hrkv, hres⟩ := Bool.and_eq_true_iff.mp hr
    obtain ⟨hrk, hrv⟩ := Bool.and_eq_true_iff.mp hrkv
    rw [Sketch.ofEntries] at h
    obtain ⟨x, hx, h⟩ := except_bind_eq_ok_iff.mp h
    obtain ⟨y, hy, h⟩ := except_bind_eq_ok_iff.mp h
    obtain ⟨xs, hxs, h⟩ := except_bind_eq_ok_iff.mp h
    cases h
    rw [Sketch.ofValue_of_isAtom leaf path _ k hk] at hx
    refine .cons ((drawsScalar_ofScalar path column hk hx id fun _ => hrk).mono
      fun key hkey (htext : k.isText = true) => ?_) (fun isOpen hopen =>
        (draws_of_ofValue (1 :: index :: trail) column isOpen v hv hrv hy).mono
          fun w hw (htext : k.isText = true) => ?_)
      (drawsEntries_of_ofEntries trail (index + 1) column es hes hres hxs)
      fun key w ps hkey hw hps => entriesFaithful_cons hkey hw hps
    · rwa [← (isShort_of_ofScalar path hk hx htext).2]
    · obtain ⟨hnone, hshort⟩ := isShort_of_ofScalar path hk hx htext
      rwa [← hshort, ← hopen hnone]

end

end Induction

/-! ### Values that last -/

theorem reachesColon_of_lastsAsKey {column : Nat} {k : Value} (h : LastsAsKey column k) :
    reachesColon k = true := by
  cases k
  case text s =>
    cases hshort : (Scalar.ofText s).isShort with
    | false => simp [reachesColon, hshort]
    | true => simpa [reachesColon, hshort] using h.2 hshort
  all_goals exact absurd h id

mutual

theorem isInReach_of_lasts (column : Nat) (isOpen : Bool) : ∀ v : Value, Lasts column isOpen v →
    isInReach v = true
  | .list vs, h => areInReach_of_allLast _ vs h
  | .map es, h => entriesInReach_of_entriesLast _ es h
  | .null, _ | .bool _, _ | .int _, _ | .float _, _ | .nan _, _ | .text _, _ | .operator _, _
  | .join _, _ | .bytes _, _ | .buffer _, _ | .date _ _, _ | .moment _ _, _ | .tuple _, _ | .set _, _
  | .frozenset _, _ | .loop _, _ | .foreign _ _, _ => rfl

theorem areInReach_of_allLast (column : Nat) : ∀ vs : List Value, AllLast column vs →
    areInReach vs = true
  | [], _ => rfl
  | v :: vs, ⟨h, hs⟩ => by
    rw [areInReach, isInReach_of_lasts column false v h, areInReach_of_allLast column vs hs,
      Bool.and_self]

theorem entriesInReach_of_entriesLast (column : Nat) : ∀ es : List (Value × Value),
    EntriesLast column es → entriesInReach es = true
  | [], _ => rfl
  | (k, v) :: es, ⟨hk, h, hs⟩ => by
    rw [entriesInReach, reachesColon_of_lastsAsKey hk, isInReach_of_lasts column _ v h,
      entriesInReach_of_entriesLast column es hs, Bool.and_self, Bool.and_self]

end

end FilterTree.Yaml
