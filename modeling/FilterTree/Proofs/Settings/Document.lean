import FilterTree.Proofs.Settings.Entries
import FilterTree.Proofs.Settings.Layer
import FilterTree.Proofs.Yaml.Impossible

/-! Settings from a file. Whatever its text holds, they are found or reported as misconfigured, but
for a few shapes that nothing looks out for: these end in another fault, and so does a text that
cannot be read although it does not break the rules of its format. -/

namespace FilterTree

/-! ### Collections -/

namespace Linked

theorem portrait_of_entries? {l : Linked} {es : List (Value × Linked)} (h : l.entries? = some es) :
    ∃ fs, l.portrait = .map fs ∧ fs.length = es.length := by
  obtain ⟨collections, root⟩ := l
  cases root with
  | value v =>
    cases v with
    | map entries =>
      cases h
      exact ⟨entries, rfl, by simp⟩
    | _ => cases h
  | pair a b => cases h
  | collection n =>
    unfold entries? at h
    dsimp only at h
    split at h
    · next entries hentries =>
      cases h
      simp [portrait, reach, Item.portrait, hentries]
    · cases h

theorem truthy_of_entries? {l : Linked} {es : List (Value × Linked)} (h : l.entries? = some es) :
    l.portrait.truthy = !es.isEmpty := by
  obtain ⟨fs, hportrait, hlength⟩ := portrait_of_entries? h
  rw [hportrait, Value.truthy]
  cases fs <;> cases es <;> simp_all

end Linked

namespace Settings

def body? (document : Linked) : Option Linked :=
  document.entries?.bind (Value.field? · "condbuilder")

def KnowsEncoding (es : List (Value × Linked)) : Prop :=
  ∀ v, Value.field? es "encoding" = some v → ∃ f, v.portrait.text?.bind Format.ofName? = some f

def MapsHooks (es : List (Value × Linked)) : Prop :=
  ∀ v, Value.field? es "hooks" = some v → v.portrait.truthy = true → ∃ hooks, v.entries? = some hooks

/-- The shapes of a text that settings are not found in, nor reported as misconfigured. -/
inductive Unforeseen (text : String) : Prop
  /-- Reading fails, though not against the rules of the format. -/
  | unread {k : Kind} (hread : Yaml.read text = .error (.other k))
  /-- What is there for this program is no mapping. -/
  | body {document body : Linked} (hread : Yaml.read text = .ok document)
    (hbody : body? document = some body) (htruthy : body.portrait.truthy = true)
    (hmap : body.entries? = none)
  /-- The encoding is none, and too long to be told. -/
  | encoding {document body v : Linked} {es : List (Value × Linked)}
    (hread : Yaml.read text = .ok document) (hbody : body? document = some body)
    (hmap : body.entries? = some es) (hfield : Value.field? es "encoding" = some v)
    (hname : v.portrait.text?.bind Format.ofName? = none) (hlong : v.portrait.isLegible = false)
  /-- Among the keys that mean nothing, two are of kinds that have no order. -/
  | keys {document body : Linked} {es : List (Value × Linked)}
    (hread : Yaml.read text = .ok document) (hbody : body? document = some body)
    (hmap : body.entries? = some es) (hencoding : KnowsEncoding es) (hhooks : MapsHooks es)
    (hkeys : Value.sorted? (unknownKeys es) = none)

/-! ### The parts of a document -/

theorem sectionFault_eq (v : Value) : ∃ k message, sectionFault v = .other k message := by
  unfold sectionFault
  split <;> exact ⟨_, _, rfl⟩

theorem sectionOf_of_body?_none (path : Path) {document : Linked} (h : body? document = none) :
    sectionOf path document = .ok [] ∨ ∃ m, sectionOf path document = .error (.misconfigured m) := by
  unfold sectionOf
  cases hmap : document.entries? with
  | none => cases document.portrait.truthy <;> simp
  | some es =>
    have hfield : Value.field? es "condbuilder" = none := by simpa [body?, hmap] using h
    simp [hfield]

theorem sectionOf_of_body? (path : Path) {document body : Linked} (h : body? document = some body) :
    sectionOf path document = if body.portrait.truthy then sectionEntries body else .ok [] := by
  obtain ⟨es, hmap, hfield⟩ := Option.bind_eq_some_iff.mp h
  have hne : es ≠ [] := by
    rintro rfl
    cases hfield
  unfold sectionOf
  simp [Linked.truthy_of_entries? hmap, hne, hmap, hfield]

theorem goesAstray_sectionOf_iff {path : Path} {document : Linked} :
    GoesAstray (sectionOf path document) ↔
      ∃ body, body? document = some body ∧ body.portrait.truthy = true ∧ body.entries? = none := by
  cases hbody : body? document with
  | none => rcases sectionOf_of_body?_none path hbody with h | ⟨m, h⟩ <;> simp [h]
  | some body =>
    rw [sectionOf_of_body? path hbody]
    obtain ⟨k, message, hfault⟩ := sectionFault_eq body.portrait
    cases ht : body.portrait.truthy with
    | false => simp [ht]
    | true => cases hmap : body.entries? <;> simp [ht, sectionEntries, hmap, hfault]

theorem sectionOf_of_entries? (path : Path) {document body : Linked} {es : List (Value × Linked)}
    (hbody : body? document = some body) (hmap : body.entries? = some es) :
    sectionOf path document = .ok es := by
  rw [sectionOf_of_body? path hbody, sectionEntries, hmap, Linked.truthy_of_entries? hmap]
  cases es <;> rfl

theorem of_sectionOf_eq_ok {path : Path} {document : Linked} {es : List (Value × Linked)}
    (h : sectionOf path document = .ok es) :
    es = [] ∨ ∃ body, body? document = some body ∧ body.entries? = some es := by
  cases hbody : body? document with
  | none =>
    rcases sectionOf_of_body?_none path hbody with hok | ⟨m, herror⟩
    · exact .inl (Except.ok.inj (h.symm.trans hok))
    · rw [herror] at h
      cases h
  | some body =>
    cases hmap : body.entries? with
    | some fs =>
      rw [sectionOf_of_entries? path hbody hmap] at h
      cases h
      exact .inr ⟨body, rfl, hmap⟩
    | none =>
      rw [sectionOf_of_body? path hbody, sectionEntries, hmap] at h
      cases ht : body.portrait.truthy with
      | false =>
        rw [ht] at h
        exact .inl (Except.ok.inj h).symm
      | true =>
        rw [ht] at h
        cases h

section
variable {es : List (Value × Linked)} {s : Settings}

theorem goesAstray_coverEncoding_iff :
    GoesAstray (coverEncoding es s) ↔
      ∃ v, Value.field? es "encoding" = some v ∧ v.portrait.text?.bind Format.ofName? = none ∧
        v.portrait.isLegible = false := by
  unfold coverEncoding
  cases hfield : Value.field? es "encoding" with
  | none => simp
  | some v =>
    cases hname : v.portrait.text?.bind Format.ofName? with
    | some f => simp only [Option.map_some, hname, GoesAstray.not_ok, Option.some.injEq,
        exists_eq_left', reduceCtorEq, false_and]
    | none =>
      simp only [Option.map_some, hname, Option.some.injEq, exists_eq_left', true_and]
      exact GoesAstray.written_iff ..

theorem exists_coverEncoding_iff : (∃ t, coverEncoding es s = .ok t) ↔ KnowsEncoding es := by
  unfold coverEncoding KnowsEncoding
  cases hfield : Value.field? es "encoding" with
  | none => simp
  | some v =>
    cases hname : v.portrait.text?.bind Format.ofName? with
    | some f => simp [hname]
    | none =>
      refine iff_of_false ?_ fun h => ?_
      · rintro ⟨t, ht⟩
        simp only [Option.map_some, hname] at ht
        obtain ⟨_, _, hfail⟩ := except_bind_eq_ok_iff.mp ht
        cases hfail
      · obtain ⟨f, hf⟩ := h v rfl
        rw [hname] at hf
        cases hf

theorem not_goesAstray_coverHooks : ¬GoesAstray (coverHooks es s) := by
  unfold coverHooks
  split
  · simp
  · split
    · simp
    · split <;> simp

theorem exists_coverHooks_iff : (∃ t, coverHooks es s = .ok t) ↔ MapsHooks es := by
  unfold coverHooks MapsHooks
  cases hfield : Value.field? es "hooks" with
  | none => simp
  | some v =>
    cases ht : v.portrait.truthy with
    | false => simp [ht]
    | true => cases hmap : v.entries? <;> simp [ht, hmap]

theorem goesAstray_warnUnknown_iff :
    GoesAstray (warnUnknown es).result ↔ Value.sorted? (unknownKeys es) = none := by
  unfold warnUnknown
  cases hkeys : unknownKeys es with
  | nil => simp [Value.sorted?]
  | cons k keys =>
    simp only
    cases hsorted : Value.sorted? (k :: keys) with
    | none => simp
    | some sorted => exact iff_of_false (GoesAstray.not_ok ()) nofun

end

/-! ### The whole of a document -/

theorem result_cover (text : String) (s : Settings) :
    (s.cover text).result =
      (match Yaml.read text with
        | .ok l => .ok l
        | .error .invalid => .error (.misconfigured (.badYaml s.path.text))
        | .error f => .error f.toFault) >>= fun document =>
      sectionOf s.path document >>= fun es =>
      coverEncoding es (coverDebug es s) >>= fun s =>
      coverHooks es s >>= fun s =>
      (warnUnknown es).result >>= fun _ => .ok s := by
  simp only [cover, Outcome.result_bind, Outcome.result_ofExcept]
  congr

theorem goesAstray_cover_of_read {text : String} {document : Linked} (s : Settings)
    (hread : Yaml.read text = .ok document) :
    GoesAstray (s.cover text).result ↔ Unforeseen text := by
  rw [result_cover, hread]
  simp only [GoesAstray.bind_iff, GoesAstray.not_ok, false_or, Except.ok.injEq, exists_eq_left',
    not_goesAstray_coverHooks, and_false, exists_false, or_false]
  constructor
  · rintro (hsection | ⟨es, hsection, hencoding | ⟨s', hencoding, s'', hhooks, hkeys⟩⟩)
    · obtain ⟨body, hbody, htruthy, hmap⟩ := goesAstray_sectionOf_iff.mp hsection
      exact .body hread hbody htruthy hmap
    · obtain ⟨v, hfield, hname, hlong⟩ := goesAstray_coverEncoding_iff.mp hencoding
      rcases of_sectionOf_eq_ok hsection with rfl | ⟨body, hbody, hmap⟩
      · cases hfield
      · exact .encoding hread hbody hmap hfield hname hlong
    · rw [goesAstray_warnUnknown_iff] at hkeys
      rcases of_sectionOf_eq_ok hsection with rfl | ⟨body, hbody, hmap⟩
      · cases hkeys
      · exact .keys hread hbody hmap (exists_coverEncoding_iff.mp ⟨s', hencoding⟩)
          (exists_coverHooks_iff.mp ⟨s'', hhooks⟩) hkeys
  · rintro (hfail | ⟨hdoc, hbody, htruthy, hmap⟩ | ⟨hdoc, hbody, hmap, hfield, hname, hlong⟩ |
      ⟨hdoc, hbody, hmap, hencoding, hhooks, hkeys⟩)
    · rw [hread] at hfail
      cases hfail
    · cases hread.symm.trans hdoc
      exact .inl (goesAstray_sectionOf_iff.mpr ⟨_, hbody, htruthy, hmap⟩)
    · cases hread.symm.trans hdoc
      exact .inr ⟨_, sectionOf_of_entries? _ hbody hmap,
        .inl (goesAstray_coverEncoding_iff.mpr ⟨_, hfield, hname, hlong⟩)⟩
    · cases hread.symm.trans hdoc
      obtain ⟨s', hs'⟩ := exists_coverEncoding_iff.mpr hencoding
      obtain ⟨s'', hs''⟩ := exists_coverHooks_iff.mpr hhooks
      exact .inr ⟨_, sectionOf_of_entries? _ hbody hmap,
        .inr ⟨s', hs', s'', hs'', goesAstray_warnUnknown_iff.mpr hkeys⟩⟩

/-- A text goes astray for the unforeseen shapes and no others. -/
theorem goesAstray_cover_iff (text : String) (s : Settings) :
    GoesAstray (s.cover text).result ↔ Unforeseen text := by
  cases hread : Yaml.read text with
  | ok document => exact goesAstray_cover_of_read s hread
  | error failure =>
    rw [result_cover, hread]
    cases failure with
    | invalid =>
      refine iff_of_false (GoesAstray.not_misconfigured _) ?_
      rintro (h | ⟨h, _⟩ | ⟨h, _⟩ | ⟨h, _⟩)
      all_goals
        rw [hread] at h
        cases h
    | other k => exact iff_of_true (GoesAstray.other k "") (.unread hread)

theorem result_load {h : Host} {path : Path} {text : String} (hsilent : h.IsSilent)
    (hfile : h.look path = .file text) :
    (load h path []).result = (cover (String.ofList (unifyLines text.toList))
      { Settings.default with path := Path.ofText path.text }).result := by
  have hmake : makeAt h path [] = .ok { Settings.default with path := Path.ofText path.text } :=
    make_of_silent hsilent path.text
  have hread : h.read? path = .ok (some (String.ofList (unifyLines text.toList))) := by
    rw [Host.read?, hfile]
  rw [load, hmake, hread, Outcome.result_bind_of_ok _ rfl, Outcome.result_bind_of_ok _ rfl]

/-- Settings are found in a file or reported as misconfigured just where its text has no unforeseen
shape, and their hooks just where the first entry that does not load is not misshapen. A text that
cannot be read, though it keeps to the rules, has a part that is too large or a scalar that is not
what its tag says. -/
theorem load_and_hookSet_foreseen_iff {h : Host} {path : Path} {file : String}
    {modules : Modules} {registry : Registry} (hsilent : h.IsSilent)
    (hfile : h.look path = .file file) :
    let text := String.ofList (unifyLines file.toList)
    ((∃ s, (load h path []).result = .ok s) ∨
      (∃ m, (load h path []).result = .error (.misconfigured m)) ↔ ¬Unforeseen text) ∧
    (∀ k, Yaml.read text = .error (.other k) →
      Yaml.Overlong text.toList ∨ Yaml.HasImpossible text) ∧
    ∀ s, (load h path []).result = .ok s →
      ((∃ hooks, (s.hookSet modules registry).result = .ok hooks) ∨
        (∃ m, (s.hookSet modules registry).result = .error (.misconfigured m)) ↔
          ¬∃ before slot entry after, s.hooks = before ++ (slot, entry) :: after ∧
            (∀ e ∈ before, (∃ n, purpose? e.1 = some n) ∧
              ∃ hook, RefersTo modules registry e.1 e.2 hook) ∧
            Misshapen modules registry slot entry) := by
  intro text
  refine ⟨?_, fun k => Yaml.overlong_or_impossible_of_read, fun s _ => ?_⟩
  · rw [← GoesAstray.not_iff, result_load hsilent hfile, goesAstray_cover_iff]
  · rw [← GoesAstray.not_iff, goesAstray_hookSet_iff]

def showing (file : String) : Host :=
  ⟨⟨"/", ["work"]⟩, [("HOME", "/home/user")], fun _ => .file file, fun _ => none, .own,
    fun _ => true⟩

theorem isSilent_showing (file : String) : (showing file).IsSilent := by
  intro e he
  cases List.mem_singleton.mp he
  rw [Bool.eq_false_iff, ne_eq, String.startsWith_string_iff]
  decide

/-- A key that means nothing, a hook of another module, one of this package and an entry that is
neither a reference nor a mapping. -/
def misshapenFile : String :=
  "condbuilder:\n  theme: dark\n  hooks:\n    validate: tools.refuse\n" ++
    "    renderKey: quote_identifier\n    render_value: 5\n"

def impossibleFile : String :=
  "condbuilder:\n  debug: 2001-02-30\n"

theorem exists_load_misshapenFile :
    ∃ s slot₁ entry₁ slot₂ entry₂ slot₃ entry₃,
      (load (showing misshapenFile) Settings.default.path []).result = .ok s ∧
      s.hooks = [(slot₁, entry₁), (slot₂, entry₂), (slot₃, entry₃)] ∧
      slot₁.text? = some "validate" ∧ slot₂.text? = some "renderKey" ∧
      slot₃.text? = some "render_value" ∧
      entry₁.entries? = none ∧ entry₂.entries? = none ∧ entry₃.entries? = none ∧
      entry₁.portrait.text? = some "tools.refuse" ∧
      entry₂.portrait.text? = some "quote_identifier" ∧ entry₃.portrait.text? = none := by
  have hread : (load (showing misshapenFile) Settings.default.path []).result.toOption.any
      (fun s => decide (s.hooks.map (fun e => (e.1.text?, e.2.entries?.isNone, e.2.portrait.text?)) =
        [(some "validate", true, some "tools.refuse"), (some "renderKey", true, some "quote_identifier"),
          (some "render_value", true, none)])) = true := by
    decide +kernel
  obtain ⟨s, hload, hentries⟩ := exists_ok_of_any hread
  obtain ⟨⟨slot₁, entry₁⟩, rest₁, hhooks, hfirst, hentries⟩ :=
    List.map_eq_cons_iff.mp (of_decide_eq_true hentries)
  obtain ⟨⟨slot₂, entry₂⟩, rest₂, rfl, hsecond, hentries⟩ := List.map_eq_cons_iff.mp hentries
  obtain ⟨⟨slot₃, entry₃⟩, rest₃, rfl, hthird, hentries⟩ := List.map_eq_cons_iff.mp hentries
  cases List.map_eq_nil_iff.mp hentries
  simp only [Prod.mk.injEq, Option.isNone_iff_eq_none] at hfirst hsecond hthird
  exact ⟨s, _, _, _, _, _, _, hload, hhooks, hfirst.1, hsecond.1, hthird.1, hfirst.2.1, hsecond.2.1,
    hthird.2.1, hfirst.2.2, hsecond.2.2, hthird.2.2⟩

theorem read_impossibleFile : Yaml.read impossibleFile = .error (.other .value) := by
  have hread : (match Yaml.read impossibleFile with
      | .error f => f = .other .value
      | .ok _ => false) = true := by
    decide +kernel
  split at hread
  · next f hfault => rw [hfault, of_decide_eq_true hread]
  · cases hread

theorem load_and_hookSet_foreseen_iff_misshapen :
    let h := showing misshapenFile
    let g := showing impossibleFile
    let path := Settings.default.path
    h.IsSilent ∧ h.look path = .file misshapenFile ∧ ¬Unforeseen misshapenFile ∧
    (∃ s, (load h path []).result = .ok s ∧ s.hooks.length = 3 ∧
      ¬((∃ hooks, (s.hookSet toolbox .initial).result = .ok hooks) ∨
        ∃ m, (s.hookSet toolbox .initial).result = .error (.misconfigured m))) ∧
    g.IsSilent ∧ g.look path = .file impossibleFile ∧
    ¬((∃ s, (load g path []).result = .ok s) ∨
      ∃ m, (load g path []).result = .error (.misconfigured m)) ∧
    (Yaml.Overlong impossibleFile.toList ∨ Yaml.HasImpossible impossibleFile) := by
  intro h g path
  have hall := @load_and_hookSet_foreseen_iff h path misshapenFile toolbox .initial
    (isSilent_showing _) rfl
  have gall := @load_and_hookSet_foreseen_iff g path impossibleFile toolbox .initial
    (isSilent_showing _) rfl
  rw [show String.ofList (unifyLines misshapenFile.toList) = misshapenFile by decide +kernel] at hall
  rw [show String.ofList (unifyLines impossibleFile.toList) = impossibleFile by decide +kernel]
    at gall
  obtain ⟨s, slot₁, entry₁, slot₂, entry₂, slot₃, entry₃, hload, hhooks, hslot₁, hslot₂, hslot₃,
    hmap₁, hmap₂, hmap₃, htext₁, htext₂, htext₃⟩ := exists_load_misshapenFile
  obtain ⟨refuse, hrefuse, -⟩ : ∃ hook, (loadHook toolbox .initial (.text "tools.refuse")
      (.ofValue .null)).result = .ok hook ∧ true = true := exists_ok_of_any (by decide +kernel)
  obtain ⟨quote, hquote, -⟩ : ∃ hook, (loadHook toolbox .initial (.text "quote_identifier")
      (.ofValue .null)).result = .ok hook ∧ true = true := exists_ok_of_any (by decide +kernel)
  have hfirst : (∃ n, purpose? slot₁ = some n) ∧
      ∃ hook, RefersTo toolbox .initial slot₁ entry₁ hook :=
    ⟨⟨.validate, by rw [purpose?, hslot₁]; decide⟩, refuse, refersTo_of_text hmap₁ htext₁ hrefuse⟩
  have hsecond : (∃ n, purpose? slot₂ = some n) ∧
      ∃ hook, RefersTo toolbox .initial slot₂ entry₂ hook :=
    ⟨⟨.renderKey, by rw [purpose?, hslot₂]; decide⟩, quote, refersTo_of_text hmap₂ htext₂ hquote⟩
  have hthird : Misshapen toolbox .initial slot₃ entry₃ :=
    .shape (n := .renderValue) (by rw [purpose?, hslot₃]; decide) hmap₃ htext₃
  refine ⟨isSilent_showing _, rfl, hall.1.mp (.inl ⟨s, hload⟩), ⟨s, hload, ?_, fun hforeseen => ?_⟩,
    isSilent_showing _, rfl, fun hforeseen => ?_, gall.2.1 .value read_impossibleFile⟩
  · rw [hhooks]
    rfl
  · exact (hall.2.2 s hload).mp hforeseen
      ⟨[(slot₁, entry₁), (slot₂, entry₂)], slot₃, entry₃, [], hhooks, by simp [hfirst, hsecond], hthird⟩
  · exact gall.1.mp hforeseen (.unread read_impossibleFile)

end Settings

end FilterTree
