import FilterTree.Proofs.Restore.Acceptance
import FilterTree.Proofs.Yaml.Impossible

/-! Which encodings are reported as malformed. All of those that cannot be restored are, but for bytes
that spell no text, text with a part too large for the library that reads it, and text with a scalar
that is not what its tag says. -/

namespace FilterTree

def Format.asked : Option Format → Value
  | none => .null
  | some f => .text f.name

theorem Format.ofOptional_asked (f : Option Format) : ofOptional (asked f) = .ok f := by
  cases f with
  | none => rfl
  | some f => cases f <;> rfl

/-- Whether reading a text fails otherwise than against the rules of the format. Without a format that
is asked for, a text which is not JSON is read as YAML. -/
def Stumbles (text : String) : Option Format → Prop
  | some .json => Json.read text = .error .tooManyDigits
  | some .yaml => ∃ k, Yaml.read text = .error (.other k)
  | none => Json.read text = .error .tooManyDigits ∨
      (∃ cause left, Json.read text = .error (.syntaxFault cause left)) ∧
        ∃ k, Yaml.read text = .error (.other k)

def Strains (text : String) : Option Format → Prop
  | some .json => HasLongNumber text.toList
  | some .yaml | none => Yaml.Overlong text.toList ∨ Yaml.HasImpossible text

theorem Stumbles.strains {text : String} {f : Option Format} (h : Stumbles text f) :
    Strains text f := by
  match f, h with
  | some .json, h => exact Json.hasLongNumber_of_read h
  | some .yaml, ⟨_, h⟩ => exact Yaml.overlong_or_impossible_of_read h
  | none, .inl h => exact .inl (.inr (Json.hasLongNumber_of_read h))
  | none, .inr ⟨_, _, h⟩ => exact Yaml.overlong_or_impossible_of_read h

/-- An encoding that fails without being reported as malformed. -/
inductive Astray (f : Option Format) : Value → Prop
  | bytes {bs : List UInt8} (h : String.fromUTF8? ⟨bs.toArray⟩ = none) : Astray f (.bytes bs)
  | spelled {bs : List UInt8} {s : String} (h : String.fromUTF8? ⟨bs.toArray⟩ = some s)
    (hs : Stumbles s f) : Astray f (.bytes bs)
  | text {v : Value} {s : String} (h : v.text? = some s) (hs : Stumbles s f) : Astray f v

/-- Where a result is missing, the fault is a malformed encoding, or else `P` holds and the fault is
none of this library's. -/
structure MalformedUnless {α : Type} (P : Prop) (x : Except Fault α) : Prop where
  malformed : ∀ e, x = .error e → e.kind = .malformed ∨ P
  foreign : P → ∃ e, x = .error e ∧ e.isOwn = false

namespace MalformedUnless
variable {α β : Type} {P Q : Prop} {x : Except Fault α}

theorem of_error {m : Malformation} (hP : ¬P) :
    MalformedUnless P (.error (.malformed m) : Except Fault α) :=
  ⟨fun e he => .inl (by cases he; rfl), fun h => absurd h hP⟩

theorem of_foreign {e : Fault} (he : e.isOwn = false) (hP : P) :
    MalformedUnless P (.error e : Except Fault α) :=
  ⟨fun _ _ => .inr hP, fun _ => ⟨e, rfl, he⟩⟩

theorem of_ok (a : α) (hP : ¬P) : MalformedUnless P (.ok a : Except Fault α) :=
  ⟨nofun, fun h => absurd h hP⟩

theorem congr (h : MalformedUnless P x) (hPQ : P ↔ Q) : MalformedUnless Q x :=
  ⟨fun e he => (h.malformed e he).imp_right hPQ.mp, fun hQ => h.foreign (hPQ.mpr hQ)⟩

theorem bind {f : α → Except Fault β} (hx : MalformedUnless P x)
    (hf : ∀ a, x = .ok a → ∀ e, f a = .error e → e.kind = .malformed) :
    MalformedUnless P (x >>= f) := by
  cases x with
  | error e =>
    refine ⟨fun e' he => ?_, fun hP => ?_⟩
    · cases he
      exact hx.malformed e rfl
    · obtain ⟨e', he, hown⟩ := hx.foreign hP
      cases he
      exact ⟨e, rfl, hown⟩
  | ok a =>
    refine ⟨fun e he => .inl (hf a rfl e he), fun hP => ?_⟩
    obtain ⟨e, he, -⟩ := hx.foreign hP
    cases he

end MalformedUnless

theorem malformedUnless_readYaml (text : String) :
    MalformedUnless (∃ k, Yaml.read text = .error (.other k)) (readYaml text) := by
  unfold readYaml
  cases h : Yaml.read text with
  | ok v => exact .of_ok _ (by simp)
  | error fault =>
    cases fault with
    | invalid => exact .of_error (by simp)
    | other k => exact .of_foreign rfl ⟨k, rfl⟩

theorem malformedUnless_readJson (text : String) :
    MalformedUnless (Json.read text = .error .tooManyDigits)
      ((Json.read text).mapError (Json.Fault.toFault text)) := by
  cases h : Json.read text with
  | ok v => exact .of_ok v nofun
  | error fault =>
    cases fault with
    | syntaxFault cause left => exact .of_error nofun
    | tooManyDigits => exact .of_foreign rfl rfl

theorem malformedUnless_loadText (text : String) (f : Option Format) :
    MalformedUnless (Stumbles text f) (loadText text f).result := by
  match f with
  | some .yaml =>
    rw [loadText, Outcome.result_ofExcept]
    exact malformedUnless_readYaml text
  | some .json =>
    rw [loadText, Outcome.result_ofExcept]
    exact malformedUnless_readJson text
  | none =>
    unfold loadText
    dsimp only
    split
    · next cause left h =>
      rw [Outcome.result_bind_of_ok _ rfl, Outcome.result_ofExcept]
      exact (malformedUnless_readYaml text).congr (by simp [Stumbles, h])
    · next hjson =>
      rw [Outcome.result_ofExcept]
      refine (malformedUnless_readJson text).congr ⟨.inl, fun h => ?_⟩
      rcases h with h | ⟨⟨cause, left, h⟩, -⟩
      · exact h
      · exact absurd h (hjson cause left)

theorem astray_iff_of_text {v : Value} {s : String} {f : Option Format} (h : v.text? = some s) :
    Astray f v ↔ Stumbles s f := by
  refine ⟨?_, .text h⟩
  rintro (_ | _ | ⟨h', hs⟩)
  · cases h
  · cases h
  · cases h.symm.trans h'
    exact hs

theorem malformedUnless_loadEncoded (encoded : Value) (f : Option Format) :
    MalformedUnless (Astray f encoded) (loadEncoded encoded (Format.asked f)).result := by
  have htext (s : String) (hs : Stumbles s f ↔ Astray f encoded) :
      MalformedUnless (Astray f encoded)
        ((do
          let f ← Outcome.ofExcept (Format.ofOptional (Format.asked f))
          loadText s f) : Outcome Value).result := by
    rw [Format.ofOptional_asked, Outcome.result_bind_of_ok _ rfl]
    exact (malformedUnless_loadText s f).congr hs
  unfold loadEncoded
  split
  · next bs =>
    split
    · next s hs =>
      refine htext s ⟨.spelled hs, ?_⟩
      rintro (hnone | ⟨h, hs'⟩ | ⟨h, -⟩)
      · cases hs.symm.trans hnone
      · cases hs.symm.trans h
        exact hs'
      · cases h
    · next hbs => exact .of_foreign rfl (.bytes hbs)
  · next hbytes =>
    split
    · next s hs => exact htext s (astray_iff_of_text hs).symm
    · next hnone =>
      refine .of_ok _ ?_
      rintro (_ | _ | ⟨h, -⟩)
      · exact hbytes _ rfl
      · exact hbytes _ rfl
      · cases hnone.symm.trans h

theorem malformedUnless_decode (encoded : Value) (f : Option Format) :
    MalformedUnless (Astray f encoded) (decode encoded (Format.asked f)).result := by
  unfold decode
  rw [Outcome.result_bind]
  refine (malformedUnless_loadEncoded encoded f).bind fun data _ e he => ?_
  split at he
  · cases he
    rfl
  · split at he
    · cases he
    · cases he
      rfl

namespace Store

/-- Decoding and restoring give a result or report a malformed encoding, unless the encoding is
astray or some value in it cannot be stored. One that is astray ends in a fault that is none of this
library's; if it is a text, there is something in it that is too much for the one that reads it. -/
theorem restore_or_malformed (s : Store) (encoded : Value) (f : Option Format) :
    ((∃ records, (decode encoded (Format.asked f)).result = .ok records) ∨
      (∃ e, (decode encoded (Format.asked f)).result = .error e ∧ e.kind = .malformed) ∨
        Astray f encoded) ∧
    ((∃ t id, (s.restore encoded .none (Format.asked f)).result = .ok (t, id)) ∨
      (∃ e, (s.restore encoded .none (Format.asked f)).result = .error e ∧ e.kind = .malformed) ∨
        Astray f encoded ∨
          ∃ records, (decode encoded (Format.asked f)).result = .ok records ∧
            ¬Record.AllStorable records) ∧
    (Astray f encoded → ∃ e, e.isOwn = false ∧
      (decode encoded (Format.asked f)).result = .error e ∧
        (s.restore encoded .none (Format.asked f)).result = .error e) ∧
    ∀ text, Stumbles text f → Strains text f := by
  have hnone : Hooks.resolve s.nextIdentity .none = .ok (Hooks.emptyIdentity, .empty) := rfl
  have hforeign (h : Astray f encoded) : ∃ e, e.isOwn = false ∧
      (decode encoded (Format.asked f)).result = .error e ∧
        (s.restore encoded .none (Format.asked f)).result = .error e := by
    obtain ⟨e, he, hown⟩ := (malformedUnless_decode encoded f).foreign h
    exact ⟨e, hown, he, restore_eq_error he⟩
  cases hdec : (decode encoded (Format.asked f)).result with
  | ok records =>
    refine ⟨.inl ⟨records, rfl⟩, ?_, ?_, fun _ => Stumbles.strains⟩
    · by_cases hr : Record.AllStorable records
      · obtain ⟨t, ht, -⟩ := restore_eq_ok hnone rfl hdec hr
        exact .inl ⟨t, _, ht⟩
      · exact .inr (.inr (.inr ⟨records, rfl, hr⟩))
    · rwa [← hdec]
  | error e =>
    have hrestore : (s.restore encoded .none (Format.asked f)).result = .error e :=
      restore_eq_error hdec
    rw [← hdec]
    rcases (malformedUnless_decode encoded f).malformed e hdec with he | h
    · exact ⟨.inr (.inl ⟨e, hdec, he⟩), .inr (.inl ⟨e, hrestore, he⟩), hforeign,
        fun _ => Stumbles.strains⟩
    · exact ⟨.inr (.inr h), .inr (.inr (.inl h)), hforeign, fun _ => Stumbles.strains⟩

/-- Bytes that spell no text are never reported as malformed. -/
theorem restore_of_undecodable (s : Store) {bs : List UInt8}
    (h : String.fromUTF8? ⟨bs.toArray⟩ = none) (hooks : Hooks) (format : Value) :
    (s.restore (.bytes bs) hooks format).result =
      .error (.other .decoding "invalid bytes") := by
  have hload : (loadEncoded (.bytes bs) format).result =
      .error (.other .decoding "invalid bytes") := by
    unfold loadEncoded
    simp only [h]
    rfl
  exact restore_eq_error (Outcome.result_bind_of_error _ hload)

theorem restore_byte_ff : ∃ e,
    (empty.restore (.bytes [0xff]) .none .null).result = .error e ∧ e.kind ≠ .malformed :=
  ⟨_, restore_of_undecodable empty (by rfl) .none .null, by decide⟩

end Store

end FilterTree
