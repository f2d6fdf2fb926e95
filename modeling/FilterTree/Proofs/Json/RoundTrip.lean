import FilterTree.Proofs.Json.Quoted
import FilterTree.Proofs.Json.Scalar
import FilterTree.Proofs.Value.Portable

/-! Every portable value of JSON shape can be written, and its text reads back as the value. -/

namespace FilterTree.Json
open Decimal (Ended)

abbrev Opens (c : Char) : Prop :=
  isBlank c = false ∧ c ≠ ']' ∧ c ≠ '\x7d' ∧ c ≠ '\ufeff'

theorem opens_of_isDigit {c : Char} (h : c.isDigit = true) : Opens c := by
  refine ⟨?_, ne_of_isDigit h rfl, ne_of_isDigit h rfl, ne_of_isDigit h rfl⟩
  simp only [isBlank, ne_of_isDigit (x := ' ') h rfl, ne_of_isDigit (x := '\t') h rfl,
    ne_of_isDigit (x := '\n') h rfl, ne_of_isDigit (x := '\r') h rfl]
  rfl

theorem skipBlanks_of_opens {c : Char} (h : Opens c) (rest : List Char) :
    skipBlanks (c :: rest) = c :: rest := by
  rw [skipBlanks, List.dropWhile_cons, if_neg (by rw [h.1]; decide)]

/-- A text that is read as a value, whatever follows that could not be a part of it. -/
structure Spells (t : List Char) (v : Value) : Prop where
  opens : ∃ c rest, t = c :: rest ∧ Opens c
  reads : ∀ (fuel : Nat) (rest : List Char), t.length ≤ fuel → Ended rest →
    readValue fuel (t ++ rest) = .ok (v, rest)

def SpellsEntry (t : List Char) (e : Value × Value) : Prop :=
  ∃ (key : String) (value : List Char), e.1 = .text key ∧
    t = (writeString key).toList ++ ':' :: value ∧ Spells value e.2

theorem SpellsEntry.opens {t : List Char} {e : Value × Value} (h : SpellsEntry t e) :
    ∃ rest, t = '"' :: rest := by
  obtain ⟨key, value, -, rfl, -⟩ := h
  exact ⟨_, by rw [toList_writeString, List.cons_append]⟩

theorem Spells.of_scalar {t : List Char} {v : Value} {c : Char} {tail : List Char}
    (ht : t = c :: tail) (hc : Opens c) (hquote : c ≠ '"') (hbracket : c ≠ '[')
    (hbrace : c ≠ '\x7b')
    (h : ∀ rest, Ended rest → readScalar (t ++ rest) = .ok (v, rest)) : Spells t v := by
  refine ⟨⟨c, tail, ht, hc⟩, fun fuel rest hfuel hrest => ?_⟩
  subst ht
  obtain ⟨fuel, rfl⟩ := exists_succ_of_lt hfuel
  rw [← h rest hrest, List.cons_append, readValue.eq_def]
  simp [hquote, hbracket, hbrace]

theorem Spells.of_isDigit {t : List Char} {v : Value} {c : Char} {tail : List Char}
    (ht : t = c :: tail) (hc : c.isDigit = true)
    (h : ∀ rest, Ended rest → readScalar (t ++ rest) = .ok (v, rest)) : Spells t v :=
  .of_scalar ht (opens_of_isDigit hc) (ne_of_isDigit hc rfl) (ne_of_isDigit hc rfl)
    (ne_of_isDigit hc rfl) h

theorem spells_toString {n : Int} (hn : (Value.int n).isLegible = true) :
    Spells (toString n).toList (.int n) := by
  obtain ⟨c, more, hdigits, hc, -⟩ := head?_toDigits n.natAbs
  have hread := fun rest (hrest : Ended rest) => readScalar_toString hn hrest
  have htext := toList_toString_int n
  split at htext
  · exact .of_scalar htext (by decide) (by decide) (by decide) (by decide) hread
  · exact .of_isDigit (htext.trans hdigits) hc hread

theorem spells_writeDouble {x : Double} (hx : x.IsCanonical) :
    Spells (writeDouble x).toList (.float x) := by
  have hread := fun rest (hrest : Ended rest) => readScalar_writeDouble hx hrest
  cases x with
  | infinite negative =>
    cases negative
    · exact .of_scalar (c := 'I') rfl (by decide) (by decide) (by decide) (by decide) hread
    · exact .of_scalar (c := '-') rfl (by decide) (by decide) (by decide) (by decide) hread
  | finite negative m e =>
    obtain ⟨d, hd, -⟩ := Double.exists_text hx
    cases negative with
    | true => exact .of_scalar hd (by decide) (by decide) (by decide) (by decide) hread
    | false =>
      obtain ⟨c, tail, htail, hc⟩ := d.exists_text_cons
      exact .of_isDigit (hd.trans htail) hc hread

theorem spells_writeString (s : String) : Spells (writeString s).toList (.text s) := by
  refine ⟨⟨_, _, toList_writeString s, by decide⟩, fun fuel rest hfuel _ => ?_⟩
  obtain ⟨fuel, rfl⟩ : ∃ k, fuel = k + 1 := by
    rw [toList_writeString] at hfuel
    exact exists_succ_of_lt hfuel
  have hread := fun start => readString_writeString start s _ hfuel rest
  rw [toList_writeString, List.cons_append, readValue.eq_def]
  simp only [hread]
  rfl

/-! ### Collections -/

theorem exists_intercalate_cons {t : String} (ts : List String) {c : Char} {tail : List Char}
    (ht : t.toList = c :: tail) : ∃ rest, (",".intercalate (t :: ts)).toList = c :: rest := by
  cases ts with
  | nil => exact ⟨tail, by simpa using ht⟩
  | cons u ts => exact ⟨tail ++ ',' :: (",".intercalate (u :: ts)).toList, by simp [ht]⟩

theorem toList_intercalate_cons (t u : String) (ts : List String) :
    (",".intercalate (t :: u :: ts)).toList =
      t.toList ++ ',' :: (",".intercalate (u :: ts)).toList := by
  simp

theorem readItems_intercalate {ts : List String} {xs : List Value}
    (h : List.Forall₂ (fun t x => Spells t.toList x) ts xs) (hne : ts ≠ []) (fuel : Nat)
    (rest : List Char) (hfuel : (",".intercalate ts).toList.length < fuel) :
    readItems fuel ((",".intercalate ts).toList ++ ']' :: rest) = .ok (xs, rest) := by
  induction h generalizing fuel with
  | nil => exact absurd rfl hne
  | @cons t x ts xs hx hxs ih =>
    obtain ⟨fuel, rfl⟩ := exists_succ_of_lt hfuel
    cases hxs with
    | nil =>
      simp only [String.intercalate_singleton] at hfuel ⊢
      rw [readItems, hx.reads fuel _ (Nat.le_of_lt_succ hfuel) (.cons (by decide) rest)]
      rfl
    | @cons u y ts xs hy hys =>
      obtain ⟨c, _, hu, hopens⟩ := hy.opens
      obtain ⟨tail, hc⟩ := exists_intercalate_cons ts hu
      rw [toList_intercalate_cons, List.length_append, List.length_cons] at hfuel
      have hrest := ih (List.cons_ne_nil u ts) fuel (by omega)
      rw [toList_intercalate_cons, List.append_assoc, List.cons_append, readItems,
        hx.reads fuel _ (by omega) (.cons (by decide) _)]
      -- the next item begins with no blank, so that nothing is skipped after the comma
      have hskip : skipBlanks ((",".intercalate (u :: ts)).toList ++ ']' :: rest) =
          (",".intercalate (u :: ts)).toList ++ ']' :: rest := by
        rw [hc, List.cons_append, skipBlanks_of_opens hopens]
      change (readItems fuel (skipBlanks _) >>= fun p => Except.ok (x :: p.1, p.2)) = _
      rw [hskip, hrest]
      rfl

theorem readEntries_entry (key : String) {value : List Char} {v : Value} (hvalue : Spells value v)
    {fuel : Nat} (hfuel : ((writeString key).toList ++ ':' :: value).length ≤ fuel) :
    (∀ rest, readEntries (fuel + 1)
      ((writeString key).toList ++ ':' :: (value ++ '\x7d' :: rest)) =
        .ok ([(.text key, v)], rest)) ∧
    ∀ rest, readEntries (fuel + 1) ((writeString key).toList ++ ':' :: (value ++ ',' :: rest)) =
      (readEntries fuel (skipBlanks rest)).map fun p => ((.text key, v) :: p.1, p.2) := by
  obtain ⟨c, tail, hc, hopens⟩ := hvalue.opens
  have hskip (after : List Char) : skipBlanks (value ++ after) = value ++ after := by
    rw [hc, List.cons_append, skipBlanks_of_opens hopens]
  rw [List.length_append, List.length_cons] at hfuel
  have hread (start after : List Char) :=
    readString_writeString start key fuel (by omega) (':' :: (value ++ after))
  have hcolon (after : List Char) :
      skipBlanks (':' :: (value ++ after)) = ':' :: (value ++ after) := rfl
  constructor
  · intro rest
    have hv := hvalue.reads fuel ('\x7d' :: rest) (by omega) (.cons (by decide) rest)
    rw [toList_writeString, List.cons_append, readEntries]
    simp only [hread, bind, Except.bind, hcolon, hskip, hv]
    rfl
  · intro rest
    have hv := hvalue.reads fuel (',' :: rest) (by omega) (.cons (by decide) rest)
    have hcomma : skipBlanks (',' :: rest) = ',' :: rest := rfl
    rw [toList_writeString, List.cons_append, readEntries]
    simp only [hread, bind, Except.bind, hcolon, hskip, hv, hcomma]
    cases readEntries fuel (skipBlanks rest) <;> rfl

theorem readEntries_intercalate {ts : List String} {es : List (Value × Value)}
    (h : List.Forall₂ (fun t e => SpellsEntry t.toList e) ts es) (hne : ts ≠ []) (fuel : Nat)
    (rest : List Char) (hfuel : (",".intercalate ts).toList.length < fuel) :
    readEntries fuel ((",".intercalate ts).toList ++ '\x7d' :: rest) = .ok (es, rest) := by
  induction h generalizing fuel with
  | nil => exact absurd rfl hne
  | @cons t e ts es he hes ih =>
    obtain ⟨fuel, rfl⟩ := exists_succ_of_lt hfuel
    obtain ⟨key, value, hkey, ht, hvalue⟩ := he
    obtain ⟨k, v⟩ := e
    obtain rfl : k = .text key := hkey
    cases hes with
    | nil =>
      simp only [String.intercalate_singleton] at hfuel ⊢
      rw [ht] at hfuel ⊢
      rw [List.append_assoc, List.cons_append]
      exact (readEntries_entry key hvalue (Nat.le_of_lt_succ hfuel)).1 rest
    | @cons u y ts xs hy hys =>
      rw [toList_intercalate_cons, List.length_append, List.length_cons] at hfuel
      have hrest := ih (List.cons_ne_nil u ts) fuel (by omega)
      obtain ⟨_, hu⟩ := hy.opens
      obtain ⟨tail, hc⟩ := exists_intercalate_cons ts hu
      have hskip : skipBlanks ((",".intercalate (u :: ts)).toList ++ '\x7d' :: rest) =
          (",".intercalate (u :: ts)).toList ++ '\x7d' :: rest := by
        rw [hc]
        rfl
      rw [ht] at hfuel
      rw [toList_intercalate_cons, ht, List.append_assoc, List.append_assoc, List.cons_append,
        List.cons_append, (readEntries_entry key hvalue (by omega)).2, hskip, hrest]
      rfl

theorem foldl_insertEntry {es done : List (Value × Value)} (hes : Value.EntriesPortable es)
    (hdone : ∀ e ∈ es, ∀ d ∈ done, d.1.same true e.1 = false) :
    es.foldl (fun es (k, v) => Value.insertEntry es k v) done = done ++ es := by
  induction es generalizing done with
  | nil => simp
  | cons e es ih =>
    obtain ⟨k, v⟩ := e
    obtain ⟨hk, hdistinct, -, hes⟩ := hes
    have hnew : (done.any fun d => d.1.same true k) = false :=
      List.any_eq_false.mpr fun d hd => Bool.eq_false_iff.mp (hdone _ List.mem_cons_self d hd)
    have hinsert : Value.insertEntry done k v = done ++ [(k, v)] := by
      unfold Value.insertEntry
      rw [hnew]
      rfl
    rw [List.foldl_cons]
    simp only [hinsert]
    rw [ih hes, List.append_assoc, List.singleton_append]
    -- what is already there now includes `k`, which the later names differ from
    intro e he d hd
    rcases List.mem_append.mp hd with hd | hd
    · exact hdone e (List.mem_cons_of_mem _ he) d hd
    · obtain ⟨s, rfl⟩ := Value.isText_iff.mp hk
      obtain ⟨s', hs'⟩ := Value.isText_iff.mp (Value.isText_of_mem hes he)
      have hne := hdistinct e he
      rw [List.mem_singleton.mp hd, hs', Value.same_text]
      rw [hs'] at hne
      simpa using fun h => hne (by rw [h])

theorem mapOf_of_portable {es : List (Value × Value)} (hes : Value.EntriesPortable es) :
    Value.mapOf es = .map es := by
  rw [Value.mapOf, foldl_insertEntry hes (fun _ _ _ hd => by cases hd)]
  rfl

theorem write_int {n : Int} (hn : (Value.int n).isLegible = true) :
    write (.int n) = .ok (toString n) := by
  rw [write, writeInt, if_pos hn]

theorem spells_list {ts : List String} {xs : List Value}
    (h : List.Forall₂ (fun t x => Spells t.toList x) ts xs) :
    Spells ("[" ++ ",".intercalate ts ++ "]").toList (.list xs) := by
  have htext : ("[" ++ ",".intercalate ts ++ "]").toList =
      '[' :: ((",".intercalate ts).toList ++ [']']) := by simp
  rw [htext]
  refine ⟨⟨_, _, rfl, by decide⟩, fun fuel rest hfuel _ => ?_⟩
  obtain ⟨fuel, rfl⟩ := exists_succ_of_lt hfuel
  cases h with
  | nil => rfl
  | @cons t x ts xs hx hxs =>
    obtain ⟨c, _, ht, hopens⟩ := hx.opens
    obtain ⟨tail, hc⟩ := exists_intercalate_cons ts ht
    have hitems := readItems_intercalate (.cons hx hxs) (List.cons_ne_nil t ts) fuel rest (by
      simp only [List.length_cons, List.length_append, List.length_nil] at hfuel
      omega)
    have hskip : skipBlanks ((",".intercalate (t :: ts)).toList ++ ']' :: rest) =
        (",".intercalate (t :: ts)).toList ++ ']' :: rest := by
      rw [hc, List.cons_append, skipBlanks_of_opens hopens]
    rw [List.cons_append, List.append_assoc, List.singleton_append, readValue, hskip]
    -- the reader looks for the empty list first
    split
    · next heq =>
      rw [hc, List.cons_append] at heq
      exact absurd (List.cons.inj heq).1 hopens.2.1
    · rw [hitems]
      rfl

theorem spells_mapOf {ts : List String} {es : List (Value × Value)}
    (h : List.Forall₂ (fun t e => SpellsEntry t.toList e) ts es) :
    Spells ("\x7b" ++ ",".intercalate ts ++ "\x7d").toList (.mapOf es) := by
  have htext : ("\x7b" ++ ",".intercalate ts ++ "\x7d").toList =
      '\x7b' :: ((",".intercalate ts).toList ++ ['\x7d']) := by simp
  rw [htext]
  refine ⟨⟨_, _, rfl, by decide⟩, fun fuel rest hfuel _ => ?_⟩
  obtain ⟨fuel, rfl⟩ := exists_succ_of_lt hfuel
  cases h with
  | nil => rfl
  | @cons t e ts es he hrest =>
    obtain ⟨_, ht⟩ := he.opens
    obtain ⟨tail, hc⟩ := exists_intercalate_cons ts ht
    have hentries := readEntries_intercalate (.cons he hrest) (List.cons_ne_nil t ts) fuel rest (by
      simp only [List.length_cons, List.length_append, List.length_nil] at hfuel
      omega)
    have hskip : skipBlanks ((",".intercalate (t :: ts)).toList ++ '\x7d' :: rest) =
        (",".intercalate (t :: ts)).toList ++ '\x7d' :: rest := by
      rw [hc]
      rfl
    rw [List.cons_append, List.append_assoc, List.singleton_append, readValue, hskip]
    split
    · next heq =>
      rw [hc, List.cons_append] at heq
      cases (List.cons.inj heq).1
    · rw [hentries]
      rfl

theorem spells_map {ts : List String} {es : List (Value × Value)} (hes : Value.EntriesPortable es)
    (h : List.Forall₂ (fun t e => SpellsEntry t.toList e) ts es) :
    Spells ("\x7b" ++ ",".intercalate ts ++ "\x7d").toList (.map es) := by
  rw [← mapOf_of_portable hes]
  exact spells_mapOf h

mutual

theorem spells_write : ∀ v : Value, v.isJson = true → v.Portable →
    ∃ t, write v = .ok t ∧ Spells t.toList v
  | .null, _, _ => ⟨"null", rfl, .of_scalar (c := 'n') rfl (by decide) (by decide) (by decide)
      (by decide) fun _ _ => rfl⟩
  | .bool true, _, _ => ⟨"true", rfl, .of_scalar (c := 't') rfl (by decide) (by decide)
      (by decide) (by decide) fun _ _ => rfl⟩
  | .bool false, _, _ => ⟨"false", rfl, .of_scalar (c := 'f') rfl (by decide) (by decide)
      (by decide) (by decide) fun _ _ => rfl⟩
  | .int n, _, hn => ⟨toString n, write_int hn, spells_toString hn⟩
  | .float x, _, hx => ⟨writeDouble x, rfl, spells_writeDouble hx⟩
  | .text s, _, _ => ⟨writeString s, rfl, spells_writeString s⟩
  | .list xs, hj, hp => by
    obtain ⟨ts, hts, hall⟩ := spells_writeAll xs hj hp
    exact ⟨"[" ++ ",".intercalate ts ++ "]", by rw [write, hts]; rfl, spells_list hall⟩
  | .map es, hj, hp => by
    obtain ⟨ts, hts, hall⟩ := spells_writeEntries es hj hp
    exact ⟨"\x7b" ++ ",".intercalate ts ++ "\x7d", by rw [write, hts]; rfl, spells_map hp hall⟩

theorem spells_writeAll : ∀ xs : List Value, Value.areJson xs = true → Value.AllPortable xs →
    ∃ ts, writeAll xs = .ok ts ∧ List.Forall₂ (fun t x => Spells t.toList x) ts xs
  | [], _, _ => ⟨[], rfl, .nil⟩
  | x :: xs, hj, hp => by
    have hj' := Bool.and_eq_true_iff.mp hj
    obtain ⟨t, ht, hx⟩ := spells_write x hj'.1 hp.1
    obtain ⟨ts, hts, hxs⟩ := spells_writeAll xs hj'.2 hp.2
    exact ⟨t :: ts, by rw [writeAll, ht, hts]; rfl, .cons hx hxs⟩

theorem spells_writeEntries : ∀ es : List (Value × Value), Value.entriesJson es = true →
    Value.EntriesPortable es →
    ∃ ts, writeEntries es = .ok ts ∧ List.Forall₂ (fun t e => SpellsEntry t.toList e) ts es
  | [], _, _ => ⟨[], rfl, .nil⟩
  | (k, v) :: es, hj, ⟨hk, _, hv, hes⟩ => by
    have hj' := Bool.and_eq_true_iff.mp hj
    obtain ⟨t, ht, hspells⟩ := spells_write v (Bool.and_eq_true_iff.mp hj'.1).2 hv
    obtain ⟨ts, hts, hrest⟩ := spells_writeEntries es hj'.2 hes
    obtain ⟨s, rfl⟩ := Value.isText_iff.mp hk
    refine ⟨(writeString s ++ ":" ++ t) :: ts, ?_, .cons ⟨s, t.toList, rfl, ?_, hspells⟩ hrest⟩
    · rw [writeEntries, ht, hts]
      rfl
    · simp

end

/-- A whole text is read as the value that it spells. -/
theorem Spells.read {t : String} {v : Value} (h : Spells t.toList v) : read t = .ok v := by
  obtain ⟨c, tail, hc, hopens⟩ := h.opens
  have hreads := h.reads (2 * t.toList.length + 2) [] (by omega) .nil
  rw [List.append_nil] at hreads
  have hskip : skipBlanks t.toList = t.toList := by
    rw [hc, skipBlanks_of_opens hopens]
  unfold Json.read readChars
  split
  · next heq =>
    rw [hc] at heq
    exact absurd (List.cons.inj heq).1 hopens.2.2.2
  · rw [hskip, hreads]
    rfl

end FilterTree.Json
