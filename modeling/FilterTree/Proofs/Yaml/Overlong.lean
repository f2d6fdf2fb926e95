import FilterTree.Proofs.Json.Digits
import FilterTree.Yaml.Token

/-! How the lexer can fail. Nearly always a document that cannot be cut into tokens breaks the rules of
the format. The two exceptions are an escape by a code that no character has, and a number with too
many digits. -/

namespace FilterTree.Yaml

/-- An escape gives a code beyond the last character. -/
def HasBadCode (cs : List Char) : Prop :=
  ∃ mark length rest code, '\\' :: mark :: rest <:+ cs ∧
    Quoted.codeLength? mark = some length ∧ hexNumber? length rest = some code ∧ 0x10ffff < code

def Overlong (cs : List Char) : Prop :=
  HasBadCode cs ∨ HasLongNumber cs

theorem Overlong.of_suffix {cs rest : List Char} (h : Overlong rest) (hrest : rest <:+ cs) :
    Overlong cs := by
  rcases h with ⟨mark, length, more, code, hmore, h⟩ | h
  · exact .inl ⟨mark, length, more, code, hmore.trans hrest, h⟩
  · exact .inr (h.of_suffix hrest)

/-! ### Places -/

namespace Cursor

theorem suffix_next (c : Cursor) : c.next.rest <:+ c.rest := by
  unfold next
  split
  · exact List.suffix_rfl
  · next ch rest h =>
    rw [h]
    split
    · exact List.suffix_cons _ _
    · split <;> exact List.suffix_cons _ _

theorem suffix_advance (n : Nat) (c : Cursor) : (c.advance n).rest <:+ c.rest := by
  induction n generalizing c with
  | zero => exact List.suffix_rfl
  | succ n ih => exact (ih c.next).trans c.suffix_next

theorem suffix_span (p : Char → Bool) (c : Cursor) : (c.span p).2.rest <:+ c.rest :=
  suffix_advance _ c

theorem suffix_skip (p : Char → Bool) (c : Cursor) : (c.skip p).rest <:+ c.rest :=
  suffix_span p c

theorem suffix_skipComment (c : Cursor) : c.skipComment.rest <:+ c.rest := by
  unfold skipComment
  split
  · exact suffix_skip _ c
  · exact List.suffix_rfl

theorem suffix_takeBreak? {c d : Cursor} {b : Char} (h : c.takeBreak? = some (b, d)) :
    d.rest <:+ c.rest := by
  unfold takeBreak? at h
  split at h
  · cases h
    exact suffix_advance 2 c
  · split at h
    · cases h
      exact suffix_next c
    · split at h
      · cases h
        exact suffix_next c
      · cases h
  · cases h

theorem suffix_skipBreak (c : Cursor) : c.skipBreak.rest <:+ c.rest := by
  unfold skipBreak
  split
  · next h => exact suffix_takeBreak? h
  · exact List.suffix_rfl

end Cursor

/-! ### Readers -/

def Within {α : Type} (c : Cursor) : Except Failure (α × Cursor) → Prop
  | .ok (_, d) => d.rest <:+ c.rest
  | .error .invalid => True
  | .error (.other _) => Overlong c.rest

namespace Within
variable {α β : Type} {c d : Cursor}

theorem of_suffix {x : Except Failure (α × Cursor)} (h : Within d x) (hd : d.rest <:+ c.rest) :
    Within c x := by
  rcases x with (_ | _) | _
  · trivial
  · exact Overlong.of_suffix h hd
  · exact List.IsSuffix.trans h hd

theorem bind {x : Except Failure (α × Cursor)} {f : α × Cursor → Except Failure (β × Cursor)}
    (hx : Within c x) (hf : ∀ a d, d.rest <:+ c.rest → Within d (f (a, d))) :
    Within c (x >>= f) := by
  rcases x with (_ | _) | ⟨a, d⟩
  · trivial
  · exact hx
  · exact (hf a d hx).of_suffix hx

theorem bind_ok {γ : Type} {a : γ} {f : γ → Except Failure (α × Cursor)} (h : Within c (f a)) :
    Within c (Except.ok a >>= f) :=
  h

end Within

theorem Cursor.endLine_cases (c : Cursor) :
    (∃ d, c.endLine = .ok d ∧ d.rest <:+ c.rest) ∨ c.endLine = .error .invalid := by
  unfold endLine
  dsimp only
  split
  · refine .inl ⟨_, rfl, ?_⟩
    exact (suffix_skipBreak _).trans ((suffix_skipComment _).trans (suffix_skip _ c))
  · exact .inr rfl

namespace Quoted

theorem within_blankLines (fuel : Nat) (c : Cursor) : Within c (blankLines fuel c) := by
  induction fuel generalizing c with
  | zero => exact List.suffix_rfl
  | succ fuel ih =>
    have hskip := Cursor.suffix_skip isBlank c
    unfold blankLines
    split
    · trivial
    · dsimp only
      split
      · exact hskip
      · next b d hd =>
        refine ((ih d).bind fun _ _ _ => ?_).of_suffix ((Cursor.suffix_takeBreak? hd).trans hskip)
        exact List.suffix_rfl

theorem within_blanks (c : Cursor) : Within c (blanks c) := by
  have hspan := Cursor.suffix_span isBlank c
  unfold blanks
  dsimp only
  split
  · exact hspan
  · next b d hd =>
    refine ((within_blankLines _ d).bind fun _ _ _ => ?_).of_suffix
      ((Cursor.suffix_takeBreak? hd).trans hspan)
    exact List.suffix_rfl

theorem lt_of_charOfCode {n : Nat} {k : Kind} (h : charOfCode n = .error (.other k)) :
    0x10ffff < n := by
  unfold charOfCode at h
  split at h
  · omega
  · split at h
    · assumption
    · split at h <;> cases h

theorem within_escape {b c : Cursor} (h : '\\' :: c.rest <:+ b.rest) : Within b (escape c) := by
  have hcb : c.rest <:+ b.rest := (List.suffix_cons _ _).trans h
  unfold escape
  split
  · trivial
  · next e rest hrest =>
    split
    · exact (Cursor.suffix_next c).trans hcb
    · split
      · next n hn =>
        split
        · trivial
        · next code hcode =>
          cases hch : charOfCode code with
          | ok ch => exact (Cursor.suffix_advance _ c).trans hcb
          | error f =>
            cases f with
            | invalid => trivial
            | other k =>
              rw [hrest] at h
              exact .inl ⟨e, n, rest, code, h, hn, hcode, lt_of_charOfCode hch⟩
      · split
        · trivial
        · next d hd =>
          exact (within_blankLines _ d).of_suffix ((Cursor.suffix_takeBreak? hd).trans hcb)

theorem rest_next_of_cons {c : Cursor} {ch : Char} {rest : List Char} (h : c.rest = ch :: rest) :
    c.next.rest = rest := by
  unfold Cursor.next
  rw [h]
  dsimp only
  split
  · rfl
  · split <;> rfl

theorem within_body (double : Bool) (fuel : Nat) (done : List Char) (c : Cursor) :
    Within c (body double fuel done c) := by
  induction fuel generalizing done c with
  | zero => trivial
  | succ fuel ih =>
    have hnext := Cursor.suffix_next c
    unfold body
    split
    · trivial
    · next ch rest hrest =>
      split
      · exact (within_blanks c).bind fun _ _ _ => ih _ _
      · split
        · split
          · exact hnext
          · split
            · next hch =>
              have hescape : Within c (escape c.next) := by
                have hnow : '\\' :: c.next.rest = c.rest := by
                  simp only [rest_next_of_cons hrest, hrest, hch]
                exact within_escape (hnow ▸ List.suffix_rfl)
              exact hescape.bind fun _ _ _ => ih _ _
            · exact (ih _ _).of_suffix hnext
        · split
          · split
            · exact (ih _ _).of_suffix (Cursor.suffix_advance 2 c)
            · exact hnext
          · exact (ih _ _).of_suffix hnext

theorem within_read (c : Cursor) : Within c (read c) :=
  (within_body _ _ _ _).of_suffix (Cursor.suffix_next c)

end Quoted

namespace Plain

theorem suffix_blankLines? (fuel : Nat) (c : Cursor) : (blankLines? fuel c).2.rest <:+ c.rest := by
  induction fuel generalizing c with
  | zero => exact List.suffix_rfl
  | succ fuel ih =>
    unfold blankLines?
    split
    · exact List.suffix_rfl
    · dsimp only
      split
      · exact Cursor.suffix_skip _ c
      · next b d hd =>
        exact (ih d).trans ((Cursor.suffix_takeBreak? hd).trans (Cursor.suffix_skip _ c))

theorem suffix_blanks (c : Cursor) : (blanks c).2.1.rest <:+ c.rest := by
  unfold blanks
  dsimp only
  split
  · exact Cursor.suffix_span _ c
  · next b d hd =>
    exact (suffix_blankLines? _ d).trans
      ((Cursor.suffix_takeBreak? hd).trans (Cursor.suffix_span _ c))

theorem suffix_body (flow : Bool) (least : Int) (fuel : Nat) (done spaces : List Char)
    (ended : Bool) (c : Cursor) :
    (body flow least fuel done spaces ended c).2.1.rest <:+ c.rest := by
  induction fuel generalizing done spaces ended c with
  | zero => exact List.suffix_rfl
  | succ fuel ih =>
    unfold body
    dsimp only
    split
    · exact List.suffix_rfl
    · have hblanks := (suffix_blanks _).trans (Cursor.suffix_advance (run flow c.rest).length c)
      split
      · exact hblanks
      · exact (ih _ _ _ _).trans hblanks

end Plain

namespace Block

theorem suffix_blankLines (indent fuel : Nat) (c : Cursor) :
    (blankLines indent fuel c).2.rest <:+ c.rest := by
  induction fuel generalizing c with
  | zero => exact List.suffix_rfl
  | succ fuel ih =>
    have hskip : (skipIndent indent c).rest <:+ c.rest := Cursor.suffix_advance _ c
    unfold blankLines
    dsimp only
    split
    · exact hskip
    · next b d hd => exact (ih d).trans ((Cursor.suffix_takeBreak? hd).trans hskip)

theorem suffix_leadingLines (fuel deepest : Nat) (c : Cursor) :
    (leadingLines fuel deepest c).2.2.rest <:+ c.rest := by
  induction fuel generalizing deepest c with
  | zero => exact List.suffix_rfl
  | succ fuel ih =>
    have hspan := Cursor.suffix_span (· = ' ') c
    unfold leadingLines
    dsimp only
    split
    · exact hspan
    · next b d hd => exact (ih _ d).trans ((Cursor.suffix_takeBreak? hd).trans hspan)

theorem suffix_lines (folded : Bool) (indent fuel : Nat) (breaks : List Char) (c : Cursor) :
    (lines folded indent fuel breaks c).2.2.2.rest <:+ c.rest := by
  induction fuel generalizing breaks c with
  | zero => exact List.suffix_rfl
  | succ fuel ih =>
    have hspan := Cursor.suffix_span (!isBreak ·) c
    unfold lines
    split
    · exact List.suffix_rfl
    · dsimp only
      have hblank (d : Cursor) (hd : d.rest <:+ c.rest) :=
        (suffix_blankLines indent (d.rest.length + 1) d).trans hd
      split
      · next b d hd =>
        have hd := hblank d ((Cursor.suffix_takeBreak? hd).trans hspan)
        dsimp only
        split
        · exact (ih _ _).trans hd
        · exact hd
      · have hd := hblank _ hspan
        dsimp only
        split
        · exact (ih _ _).trans hd
        · exact hd

theorem headerEnd_cases {c d : Cursor} (hd : d.rest <:+ c.rest) (k : Chomp) (n : Option Nat)
    {x : Except Failure (Chomp × Option Nat × Cursor)}
    (hx : x = if n = some 0 || !startsSpace d.rest then .error .invalid
      else do return (k, n, ← d.endLine)) :
    (∃ k n e, x = .ok (k, n, e) ∧ e.rest <:+ c.rest) ∨ x = .error .invalid := by
  subst hx
  split
  · exact .inr rfl
  · rcases Cursor.endLine_cases d with ⟨e, he, hsuffix⟩ | he
    · rw [he]
      exact .inl ⟨k, n, e, rfl, hsuffix.trans hd⟩
    · rw [he]
      exact .inr rfl

theorem header_cases (c : Cursor) :
    (∃ k n d, header c = .ok (k, n, d) ∧ d.rest <:+ c.rest) ∨ header c = .error .invalid := by
  have hnext := Cursor.suffix_next c
  have htwo := Cursor.suffix_advance 2 c
  unfold header
  dsimp only
  split
  · split
    · exact headerEnd_cases htwo _ _ rfl
    · exact headerEnd_cases hnext _ _ rfl
  · split
    · split
      · exact headerEnd_cases htwo _ _ rfl
      · exact headerEnd_cases hnext _ _ rfl
    · exact headerEnd_cases List.suffix_rfl _ _ rfl

theorem within_read (outer : Int) (c : Cursor) : Within c (read outer c) := by
  unfold read
  dsimp only
  rcases header_cases c.next with ⟨k, n, d, hd, hsuffix⟩ | h
  · rw [hd]
    have hsuffix := hsuffix.trans (Cursor.suffix_next c)
    cases n with
    | none =>
      exact (suffix_lines ..).trans ((suffix_leadingLines ..).trans hsuffix)
    | some n =>
      exact (suffix_lines ..).trans ((suffix_blankLines ..).trans hsuffix)
  · rw [h]
    trivial

end Block

/-! ### Names, tags and directives -/

theorem within_readName (c : Cursor) : Within c (readName c) := by
  have hspan := (Cursor.suffix_span isWordChar c.next).trans (Cursor.suffix_next c)
  unfold readName
  dsimp only
  split
  · trivial
  · split
    · exact hspan
    · trivial

theorem eq_invalid_of_escapedBytes {fuel : Nat} {cs : List Char} {f : Failure}
    (h : escapedBytes fuel cs = .error f) : f = .invalid := by
  induction fuel generalizing cs with
  | zero => cases h
  | succ fuel ih =>
    unfold escapedBytes at h
    split at h
    · split at h
      · cases h
        rfl
      · next rest _ n _ =>
        cases hmore : escapedBytes fuel (rest.drop 2) with
        | error g =>
          rw [hmore] at h
          cases h
          exact ih hmore
        | ok bytes =>
          rw [hmore] at h
          cases h
    · cases h

theorem within_uriChars (fuel : Nat) (c : Cursor) : Within c (uriChars fuel c) := by
  induction fuel generalizing c with
  | zero => exact List.suffix_rfl
  | succ fuel ih =>
    unfold uriChars
    split
    · cases hbytes : escapedBytes (c.rest.length + 1) c.rest with
      | error f =>
        rw [eq_invalid_of_escapedBytes hbytes]
        trivial
      | ok bytes =>
        refine Within.bind_ok ?_
        dsimp only
        split
        · trivial
        · refine ((ih _).bind fun _ _ _ => ?_).of_suffix (Cursor.suffix_advance _ c)
          exact List.suffix_rfl
    · split
      · refine ((ih _).bind fun _ _ _ => ?_).of_suffix (Cursor.suffix_next c)
        exact List.suffix_rfl
      · exact List.suffix_rfl
    · exact List.suffix_rfl

theorem within_readUri (c : Cursor) : Within c (readUri c) := by
  refine (within_uriChars _ c).bind fun cs d _ => ?_
  dsimp only
  split
  · trivial
  · exact List.suffix_rfl

theorem within_readHandle (c : Cursor) : Within c (readHandle c) := by
  unfold readHandle
  split
  · dsimp only
    split
    · exact Cursor.suffix_next c
    · split
      · exact Cursor.suffix_advance _ c
      · trivial
  · trivial

theorem within_readTag (c : Cursor) : Within c (Tag.read c) := by
  have hend (t : Tag) (d : Cursor) : Within d
      (if startsSpace d.rest then .ok (t, d) else .error .invalid) := by
    split
    · exact List.suffix_rfl
    · trivial
  unfold Tag.read
  dsimp only
  split
  · refine ((within_readUri _).bind fun suffix d _ => ?_).of_suffix (Cursor.suffix_advance 2 c)
    dsimp only
    split
    · exact (hend _ _).of_suffix (Cursor.suffix_next d)
    · trivial
  · split
    · exact (hend _ _).of_suffix (Cursor.suffix_next c)
    · split
      · refine (within_readHandle c).bind fun handle d _ => ?_
        exact (within_readUri d).bind fun suffix d _ => hend _ d
      · refine ((within_readUri _).bind fun suffix d _ => ?_).of_suffix (Cursor.suffix_next c)
        exact hend _ d

namespace Directive

theorem within_number (c : Cursor) : Within c (number c) := by
  unfold number
  dsimp only
  split
  · trivial
  · split
    · next h => exact .inr (hasLongNumber_takeWhile h)
    · exact Cursor.suffix_span _ c

theorem within_readVersion (c : Cursor) : Within c (readVersion c) := by
  refine ((within_number _).bind fun major d _ => ?_).of_suffix (Cursor.suffix_skip _ c)
  dsimp only
  split
  · trivial
  · refine ((within_number _).bind fun _ e _ => ?_).of_suffix (Cursor.suffix_next d)
    dsimp only
    split
    · exact List.suffix_rfl
    · trivial

theorem within_readHandleLine (c : Cursor) : Within c (readHandleLine c) := by
  refine ((within_readHandle _).bind fun name d _ => ?_).of_suffix (Cursor.suffix_skip _ c)
  dsimp only
  split
  · trivial
  · refine ((within_readUri _).bind fun expansion e _ => ?_).of_suffix (Cursor.suffix_skip _ d)
    dsimp only
    split
    · exact List.suffix_rfl
    · trivial

theorem within_read (c : Cursor) : Within c (read c) := by
  have hspan := (Cursor.suffix_span isWordChar c.next).trans (Cursor.suffix_next c)
  have hend (d : Directive) (e : Cursor) : Within e (do return (d, ← e.endLine)) := by
    rcases Cursor.endLine_cases e with ⟨f, hf, hsuffix⟩ | hf
    · rw [hf]
      exact hsuffix
    · rw [hf]
      trivial
  unfold read
  dsimp only
  split
  · trivial
  · split
    · exact ((within_readVersion _).bind fun d e _ => hend d e).of_suffix hspan
    · split
      · exact ((within_readHandleLine _).bind fun d e _ => hend d e).of_suffix hspan
      · exact (hend .reserved _).of_suffix ((Cursor.suffix_skip _ _).trans hspan)

end Directive

/-! ### Tokens -/

namespace Lexer

def StaysIn (x : Lexer) : Except Failure Lexer → Prop
  | .ok y => y.cursor.rest <:+ x.cursor.rest
  | .error .invalid => True
  | .error (.other _) => Overlong x.cursor.rest

namespace StaysIn
variable {x y : Lexer}

theorem of_suffix {r : Except Failure Lexer} (h : StaysIn y r)
    (hy : y.cursor.rest <:+ x.cursor.rest) : StaysIn x r := by
  rcases r with (_ | _) | _
  · trivial
  · exact Overlong.of_suffix h hy
  · exact List.IsSuffix.trans h hy

theorem bind {r : Except Failure Lexer} {f : Lexer → Except Failure Lexer} (hr : StaysIn x r)
    (hf : ∀ y, y.cursor.rest <:+ x.cursor.rest → StaysIn y (f y)) : StaysIn x (r >>= f) := by
  rcases r with (_ | _) | y
  · trivial
  · exact hr
  · exact (hf y hr).of_suffix hr

theorem ite {p : Prop} [Decidable p] {r r' : Except Failure Lexer} (hr : StaysIn x r)
    (hr' : StaysIn x r') : StaysIn x (if p then r else r') := by
  split
  · exact hr
  · exact hr'

theorem of_within {α : Type} {r : Except Failure (α × Cursor)}
    (hr : Within x.cursor r) {f : α × Cursor → Lexer} (hf : ∀ a c, (f (a, c)).cursor = c) :
    StaysIn x (r >>= fun p => .ok (f p)) := by
  rcases r with (_ | _) | ⟨a, c⟩
  · trivial
  · exact hr
  · change (f (a, c)).cursor.rest <:+ x.cursor.rest
    rw [hf]
    exact hr

end StaysIn

theorem staysIn_dropStale (x : Lexer) : StaysIn x x.dropStale := by
  unfold dropStale
  split
  · trivial
  · exact List.suffix_rfl

theorem staysIn_dropCandidate (x : Lexer) : StaysIn x x.dropCandidate := by
  unfold dropCandidate
  split
  · trivial
  · exact List.suffix_rfl

theorem staysIn_noteCandidate (x : Lexer) : StaysIn x x.noteCandidate := by
  unfold noteCandidate
  split
  · exact List.suffix_rfl
  · exact (staysIn_dropCandidate x).bind fun y _ => List.suffix_rfl

theorem cursor_closeBeyond (column : Int) (outer : List Int) (x : Lexer) :
    (closeBeyond column outer x).cursor = x.cursor := by
  induction outer generalizing x with
  | nil => rfl
  | cons i outer ih =>
    unfold closeBeyond
    split
    · exact ih _
    · rfl

theorem cursor_close (x : Lexer) (column : Int) : (x.close column).cursor = x.cursor := by
  unfold close
  split
  · exact cursor_closeBeyond ..
  · rfl

theorem staysIn_openHere (x : Lexer) (t : Token) : StaysIn x (x.openHere t) := by
  unfold openHere opens
  split
  · exact List.suffix_rfl
  · split
    · trivial
    · split
      · next y h =>
        split at h
        · cases h
          exact List.suffix_rfl
        · cases h
      · exact List.suffix_rfl

theorem suffix_skipLines (fuel : Nat) (x : Lexer) :
    (skipLines fuel x).cursor.rest <:+ x.cursor.rest := by
  induction fuel generalizing x with
  | zero => exact List.suffix_rfl
  | succ fuel ih =>
    have hskip := (Cursor.suffix_skipComment _).trans (Cursor.suffix_skip (· = ' ') x.cursor)
    unfold skipLines
    dsimp only
    split
    · exact hskip
    · next b d hd => exact (ih _).trans ((Cursor.suffix_takeBreak? hd).trans hskip)

theorem suffix_skipBlank (x : Lexer) : x.skipBlank.cursor.rest <:+ x.cursor.rest := by
  unfold skipBlank
  refine (suffix_skipLines _ _).trans ?_
  dsimp only
  split
  · exact Cursor.suffix_next _
  · exact List.suffix_rfl

theorem suffix_close (x : Lexer) (column : Int) :
    (x.close column).cursor.rest <:+ x.cursor.rest :=
  (cursor_close x column).symm ▸ List.suffix_rfl

theorem staysIn_leaveDocument (x : Lexer) : StaysIn x x.leaveDocument := by
  refine ((staysIn_dropCandidate _).bind fun _ _ => ?_).of_suffix (suffix_close x _)
  exact List.suffix_rfl

theorem staysIn_nodePart {α : Type} (x : Lexer) {read : Cursor → Except Failure (α × Cursor)}
    (hread : ∀ c, Within c (read c)) (t : α → Token) : StaysIn x (x.nodePart read t) :=
  (staysIn_noteCandidate x).bind fun y _ => .of_within (hread y.cursor) fun _ _ => rfl

theorem staysIn_directive (x : Lexer) : StaysIn x x.directive :=
  (staysIn_leaveDocument x).bind fun y _ =>
    .of_within (Directive.within_read y.cursor) fun _ _ => rfl

theorem staysIn_blockScalar (x : Lexer) : StaysIn x x.blockScalar :=
  (staysIn_dropCandidate x).bind fun y _ =>
    .of_within (Block.within_read y.indent y.cursor) fun _ _ => rfl

theorem staysIn_plainScalar (x : Lexer) : StaysIn x x.plainScalar := by
  refine (staysIn_noteCandidate x).bind fun y _ => ?_
  change (Plain.read (y.flow ≠ 0) (y.indent + 1) y.cursor).2.1.rest <:+ y.cursor.rest
  exact Plain.suffix_body ..

theorem staysIn_value (x : Lexer) : StaysIn x x.value := by
  unfold value
  split
  · have hnext := Cursor.suffix_next x.cursor
    dsimp only
    split
    · exact hnext
    · split
      · next h =>
        unfold opens at h
        split at h
        · cases h
          exact hnext
        · cases h
      · exact hnext
  · refine (staysIn_openHere x _).bind fun y _ => (staysIn_dropCandidate y).bind fun z _ => ?_
    exact Cursor.suffix_next z.cursor

theorem staysIn_next (x : Lexer) : StaysIn x x.next := by
  have hopen (t : Token) : StaysIn x (x.openFlow t) :=
    (staysIn_noteCandidate x).bind fun y _ => Cursor.suffix_next y.cursor
  have hclose (t : Token) : StaysIn x (x.closeFlow t) :=
    (staysIn_dropCandidate x).bind fun y _ => Cursor.suffix_next y.cursor
  have hmarker (t : Token) : StaysIn x (x.marker t) :=
    (staysIn_leaveDocument x).bind fun y _ => Cursor.suffix_advance 3 y.cursor
  have hopened (t u : Token) (keyAllowed : Lexer → Bool) : StaysIn x (do
      let y ← x.openHere t
      let z ← y.dropCandidate
      return { z.take 1 u with keyAllowed := keyAllowed z }) :=
    (staysIn_openHere x _).bind fun y _ => (staysIn_dropCandidate y).bind fun z _ =>
      Cursor.suffix_next z.cursor
  have hflowEntry : StaysIn x x.flowEntry :=
    (staysIn_dropCandidate x).bind fun y _ => Cursor.suffix_next y.cursor
  unfold next
  dsimp only
  split
  · refine ((staysIn_dropCandidate _).bind fun _ _ => ?_).of_suffix (suffix_close x _)
    exact List.suffix_rfl
  · exact .ite (staysIn_directive x) <| .ite (hmarker _) <| .ite (hopen _) <| .ite (hopen _) <|
      .ite (hclose _) <| .ite (hclose _) <| .ite hflowEntry <| .ite (hopened _ _ fun _ => true) <|
      .ite (hopened _ _ fun z => z.flow = 0) <| .ite (staysIn_value x) <|
      .ite (staysIn_nodePart x within_readName _) <| .ite (staysIn_nodePart x within_readName _) <|
      .ite (staysIn_nodePart x within_readTag _) <| .ite (staysIn_blockScalar x) <|
      .ite (staysIn_nodePart x Quoted.within_read _) <| .ite (staysIn_plainScalar x) trivial

theorem overlong_of_run {fuel : Nat} {x : Lexer} {k : Kind}
    (h : (run fuel x).failure = some (.other k)) : Overlong x.cursor.rest := by
  -- A round drops stale keys, skips blanks and reads tokens, and all of this only moves on in the text.
  induction fuel generalizing x with
  | zero => cases h
  | succ fuel ih =>
    unfold run at h
    have hstale := staysIn_dropStale x
    split at h
    · next f hf =>
      rw [hf] at hstale
      cases h
      exact hstale
    · next y hy =>
      rw [hy] at hstale
      have hstep : StaysIn y (do
          let skipped ← y.skipBlank.dropStale
          (skipped.close skipped.cursor.column).next) :=
        ((staysIn_dropStale _).bind fun z _ =>
          (staysIn_next _).of_suffix (suffix_close z _)).of_suffix (suffix_skipBlank y)
      dsimp only at h
      split at h
      · next f hf =>
        rw [hf] at hstep
        cases h
        exact Overlong.of_suffix hstep hstale
      · next z hz =>
        rw [hz] at hstep
        split at h
        · cases h
        · exact (ih h).of_suffix (List.IsSuffix.trans hstep hstale)

end Lexer

/-- Only such a text breaks off with another failure than one against the rules of the format. -/
theorem overlong_of_tokens {cs : List Char} {k : Kind}
    (h : (Tokens.ofChars cs).failure = some (.other k)) : Overlong cs := by
  unfold Tokens.ofChars at h
  split at h
  · exact Lexer.overlong_of_run h
  · cases h

end FilterTree.Yaml
