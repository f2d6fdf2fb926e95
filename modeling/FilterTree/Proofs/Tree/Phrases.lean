import FilterTree.Proofs.Tree.Overlay
import FilterTree.Proofs.Tree.Wording
import Mathlib.Data.List.Forall2

/-! Conditions whose leaves render to phrases: texts without parentheses in which no word is a join.
Hooks of any kind may have made them. The text of such a condition tells its shape, its phrases, and
the joins between its slots. -/

namespace FilterTree

/-! ### Phrases -/

/-- A text that no part of a condition's structure can be mistaken for. It may hold blanks. -/
structure IsPhrase (s : String) : Prop where
  nonempty : s ≠ ""
  no_open : '(' ∉ s.toList
  no_close : ')' ∉ s.toList
  no_join : ∀ j : Join, j.name.toList ∉ s.toList.splitOn ' '

theorem Join.splitOn_name (j : Join) : j.name.toList.splitOn ' ' = [j.name.toList] := by
  cases j <;> rfl

theorem Join.isAlpha_of_mem_name {j : Join} {ch : Char} (h : ch ∈ j.name.toList) :
    ch.isAlpha = true := by
  cases j <;> exact List.all_eq_true.mp rfl ch h

namespace IsPhrase

variable {s : String} (hs : IsPhrase s)
include hs

theorem exists_toList : ∃ ch rest, s.toList = ch :: rest ∧ ch ≠ '(' ∧ ch ≠ ')' := by
  cases hlist : s.toList with
  | nil => exact absurd (String.toList_eq_nil_iff.mp hlist) hs.nonempty
  | cons ch rest =>
    have hopen := hs.no_open
    have hclose := hs.no_close
    rw [hlist] at hopen hclose
    exact ⟨ch, rest, rfl, fun h => hopen (h ▸ List.mem_cons_self),
      fun h => hclose (h ▸ List.mem_cons_self)⟩

theorem ne_append_join (before : List Char) (j : Join) :
    s.toList ≠ before ++ ' ' :: j.name.toList := by
  intro h
  refine hs.no_join j ?_
  rw [h, List.splitOn_append_cons_self, j.splitOn_name]
  exact List.mem_append_right _ List.mem_cons_self

theorem ne_append_join_append (before : List Char) (j : Join) (after : List Char) :
    s.toList ≠ before ++ ' ' :: (j.name.toList ++ ' ' :: after) := by
  intro h
  refine hs.no_join j ?_
  rw [h, List.splitOn_append_cons_self, List.splitOn_append_cons_self, j.splitOn_name]
  exact List.mem_append_right _ (List.mem_append_left _ List.mem_cons_self)

theorem eq_nil_of_append {before more r r' : List Char} (h : s.toList = before ++ more)
    (hr : Tree.AfterPayload r) (hr' : Tree.AfterPayload r') (heq : r = more ++ r') :
    more = [] := by
  cases more with
  | nil => rfl
  | cons ch more =>
    exfalso
    cases hr with
    | ends hends =>
      have hclose : ch = ')' := by simpa using hends ch (by rw [heq]; rfl)
      exact hs.no_close (by simp [h, hclose])
    | join j rest =>
      obtain ⟨rfl, hrest⟩ := List.cons.inj heq
      rcases List.append_eq_append_iff.mp hrest with ⟨word, hmore, hword⟩ | ⟨tail, hname, htail⟩
      · cases word with
        | nil => exact hs.ne_append_join before j (by rw [h, hmore, List.append_nil])
        | cons blank word =>
          obtain ⟨rfl, -⟩ := List.cons.inj hword
          exact hs.ne_append_join_append before j word (by rw [h, hmore])
      · cases tail with
        | nil => exact hs.ne_append_join before j (by rw [h, hname, List.append_nil])
        | cons letter tail =>
          -- a letter of the join would follow the payload
          have hletter : letter.isAlpha = true :=
            Join.isAlpha_of_mem_name (j := j) (by simp [hname])
          cases hr' with
          | ends hends =>
            have hclose : letter = ')' := by simpa using hends letter (by rw [htail]; rfl)
            rw [hclose] at hletter
            cases hletter
          | join k rest' =>
            obtain ⟨rfl, -⟩ := List.cons.inj htail
            cases hletter

theorem cancel {s' : String} (hs' : IsPhrase s') {r r' : List Char} (hr : Tree.AfterPayload r)
    (hr' : Tree.AfterPayload r') (h : s.toList ++ r = s'.toList ++ r') : s = s' ∧ r = r' := by
  rcases List.append_eq_append_iff.mp h with ⟨more, hmore, hrest⟩ | ⟨more, hmore, hrest⟩
  · obtain rfl := hs'.eq_nil_of_append hmore hr hr' hrest
    exact ⟨(String.toList_inj.mp (by rw [hmore, List.append_nil])).symm, hrest⟩
  · obtain rfl := hs.eq_nil_of_append hmore hr' hr hrest
    exact ⟨String.toList_inj.mp (by rw [hmore, List.append_nil]), hrest.symm⟩

end IsPhrase

theorem Value.plain_of_text? {v : Value} {s : String} (h : v.text? = some s) : v.plain = s := by
  cases v <;> first | exact Option.some.inj h | cases h

namespace Tree

/-! ### Rendering to texts -/

def RendersAs (given : Hooks) (t : Tree) (s : String) : Prop :=
  ∃ v, (t.render given).result = .ok v ∧ v.text? = some s

def RendersText (given : Hooks) (h : Hooks) (c : Context) : Prop :=
  ∃ s, RendersAs given (.leaf 0 h c) s

def RendersPhrase (given : Hooks) (h : Hooks) (c : Context) : Prop :=
  ∃ s, RendersAs given (.leaf 0 h c) s ∧ IsPhrase s

def RenderSame (given others : Hooks) (h : Hooks) (c : Context) (l : Hooks) (d : Context) : Prop :=
  ∃ s, RendersAs given (.leaf 0 h c) s ∧ RendersAs others (.leaf 0 l d) s

def leafText (given : Hooks) (h : Hooks) (c : Context) : String :=
  (((leaf 0 h c).render given).result.toOption.bind Value.text?).getD ""

theorem RendersAs.leafText_eq {given h : Hooks} {c : Context} {s : String}
    (hs : RendersAs given (.leaf 0 h c) s) : leafText given h c = s := by
  obtain ⟨v, hv, htext⟩ := hs
  rw [leafText, hv]
  change (v.text?).getD "" = s
  rw [htext]
  rfl

theorem text?_shown {v : Value} {s : String} (h : v.text? = some s) (t : Tree) :
    (t.shown v).text? = some (t.inSlot s) := by
  cases t with
  | leaf => exact h
  | branch =>
    rw [shown, Value.plain_of_text? h]
    rfl

def Shows (part : Join × Value) (text : Join × String) : Prop :=
  part.1 = text.1 ∧ part.2.text? = some text.2

theorem mapM_of_shows {f : Join × Value → Option (Join × String)}
    (hf : ∀ p, f p = p.2.text?.map (p.1, ·)) {parts : List (Join × Value)}
    {texts : List (Join × String)} (h : List.Forall₂ Shows parts texts) :
    parts.mapM f = some texts := by
  induction h with
  | nil => rfl
  | @cons part text _ _ hshows _ ih =>
    rw [List.mapM_cons, ih, hf, hshows.2, hshows.1]
    rfl

theorem joinRendered_of_shows {parts : List (Join × Value)} {texts : List (Join × String)}
    (h : List.Forall₂ Shows parts texts) : joinRendered parts = .ok (joinSlots texts) := by
  rw [joinRendered, mapM_of_shows (fun _ => rfl) h]

section
variable {given overrides : Hooks}

mutual

theorem exists_renderWith_texts (hleaf : ∀ id h c,
    (leaf id h c).render given = (leaf id h c).renderWith overrides) : ∀ t : Tree,
    t.AllLeaves (RendersText given) →
      ∃ v, (t.renderWith overrides).result = .ok v ∧
        v.text? = some (t.wording (leafText given))
  | .leaf id h c, ⟨s, hs⟩ => by
    have htext := hs.leafText_eq
    obtain ⟨v, hv, hvs⟩ := hs
    rw [hleaf] at hv
    exact ⟨v, hv, by rw [wording, htext, hvs]⟩
  | .branch id h slots, ht => by
    obtain ⟨parts, hparts, htexts⟩ := exists_renderSlots_texts hleaf slots ht
    refine ⟨.text (joinSlots (wordings (leafText given) slots)), ?_, rfl⟩
    rw [renderWith, Outcome.result_bind_of_ok _ hparts, joinRendered_of_shows htexts]
    rfl

theorem exists_renderSlots_texts (hleaf : ∀ id h c,
    (leaf id h c).render given = (leaf id h c).renderWith overrides) :
    ∀ slots : List (Join × Tree), AllLeavesOfSlots (RendersText given) slots →
      ∃ parts, (renderSlots overrides slots).result = .ok parts ∧
        List.Forall₂ Shows parts (wordings (leafText given) slots)
  | [], _ => ⟨[], rfl, .nil⟩
  | (j, t) :: rest, ht => by
    obtain ⟨v, hv, htext⟩ := exists_renderWith_texts hleaf t ht.1
    obtain ⟨others, hothers, htexts⟩ := exists_renderSlots_texts hleaf rest ht.2
    refine ⟨(j, t.shown v) :: others, ?_, .cons ⟨rfl, text?_shown htext t⟩ htexts⟩
    rw [result_renderSlots_cons, hv, hothers]
    rfl

end

end

theorem render_texts {given : Hooks} {id : NodeId} {h : Hooks} {slots : List (Join × Tree)}
    (hgiven : slots ≠ [] → ∃ p, given.resolve 0 = .ok p)
    (ht : AllLeavesOfSlots (RendersText given) slots) :
    ((branch id h slots).render given).result =
      .ok (.text (joinSlots (wordings (leafText given) slots))) := by
  cases slots with
  | nil => rfl
  | cons x rest =>
    obtain ⟨p, hp⟩ := hgiven (by simp)
    obtain ⟨overrides, -, hrender⟩ := exists_renderWith hp
    obtain ⟨parts, hparts, htexts⟩ :=
      exists_renderSlots_texts (fun id h c => hrender _ (by simp)) (x :: rest) ht
    rw [hrender _ (by simp), renderWith, Outcome.result_bind_of_ok _ hparts, joinRendered_of_shows htexts]
    rfl

theorem render_phrases {given : Hooks} {id : NodeId} {h : Hooks} {slots : List (Join × Tree)}
    (hgiven : slots ≠ [] → ∃ p, given.resolve 0 = .ok p)
    (ht : AllLeavesOfSlots (RendersPhrase given) slots) :
    ((branch id h slots).render given).result =
      .ok (.text (joinSlots (wordings (leafText given) slots))) :=
  render_texts hgiven (ht.mono fun ⟨s, hs, _⟩ => ⟨s, hs⟩)

theorem distinct_phrases (given others : Hooks) : Distinct (leafText given) (leafText others)
    (RendersPhrase given) (RendersPhrase others) (RenderSame given others) where
  opens_left := by
    rintro h c ⟨s, hs, hphrase⟩
    rw [hs.leafText_eq]
    exact hphrase.exists_toList
  opens_right := by
    rintro h c ⟨s, hs, hphrase⟩
    rw [hs.leafText_eq]
    exact hphrase.exists_toList
  cancel := by
    rintro h c l d ⟨s, hs, hphrase⟩ ⟨s', hs', hphrase'⟩ r r' hr hr' heq
    rw [hs.leafText_eq, hs'.leafText_eq] at heq
    obtain ⟨rfl, rfl⟩ := hphrase.cancel hphrase' hr hr' heq
    exact ⟨⟨s, hs, hs'⟩, rfl⟩

theorem leafText_eq_of_renderSame {given others h l : Hooks} {c d : Context}
    (hsame : RenderSame given others h c l d) : leafText given h c = leafText others l d := by
  obtain ⟨s, hs, hs'⟩ := hsame
  rw [hs.leafText_eq, hs'.leafText_eq]

/-- Two conditions of phrases, each rendered in a call of its own, have one text just if they have
one shape, the same phrases in the same places, and the same joins wherever another slot follows. -/
theorem render_eq_iff_alike {given others : Hooks} {t u : Tree} (htb : t.isBranch = true)
    (hub : u.isBranch = true) (hgiven : t.slots ≠ [] → ∃ p, given.resolve 0 = .ok p)
    (hothers : u.slots ≠ [] → ∃ p, others.resolve 0 = .ok p)
    (ht : t.AllLeaves (RendersPhrase given)) (hu : u.AllLeaves (RendersPhrase others)) :
    ∃ v w, (t.render given).result = .ok (.text v) ∧ (u.render others).result = .ok (.text w) ∧
      (v = w ↔ Alike (RenderSame given others) t u) := by
  cases t with
  | leaf => cases htb
  | branch i h xs =>
    cases u with
    | leaf => cases hub
    | branch k l ys =>
      refine ⟨_, _, render_phrases hgiven ht, render_phrases hothers hu, fun hvw => ?_, ?_⟩
      · obtain ⟨hslots, -⟩ := alikeSlots_of_wordings (distinct_phrases given others) xs ys ht hu
          [] [] .nil .nil (by rw [hvw])
        exact .branch hslots
      · intro halike
        cases halike with
        | branch hslots =>
          exact joinSlots_eq_of_alikeSlots (f := leafText given) (g := leafText others)
            leafText_eq_of_renderSame hslots

/-- One leaf has the text of its parts and the other one that of a hook, and the joins of last slots
differ. -/
theorem render_eq_iff_alike_hooked :
    let hooked : Hooks := .mapping [(.text "renderExpression", .hook
      (.ofText "render" fun _ => pure "name ilike x"))]
    let t : Tree := .branch 0 .none
      [(.or, .leaf 1 .none
        ⟨.value (.text "name"), .value (.operator .like), .value (.text "x")⟩),
        (.and, .branch 2 .none []), (.and, .branch 3 .none [(.and, .leaf 4 .none
          ⟨.value (.text "name ilike "), .value (.text ""), .value (.text "x")⟩)])]
    let u : Tree := .branch 5 .none
      [(.or, .leaf 6 .none ⟨.value .null, .value .null, .value .null⟩), (.and, .branch 7 .none []),
        (.or, .branch 8 .none [(.or, .leaf 9 .none ⟨.value .null, .value .null, .value .null⟩)])]
    (t.render .none).result = .ok (.text "name ilike x or () and (name ilike x)") ∧
      ∃ v w, (t.render .none).result = .ok (.text v) ∧ (u.render hooked).result = .ok (.text w) ∧
        (v = w ↔ Alike (RenderSame .none hooked) t u) := by
  intro hooked t u
  have hphrase : IsPhrase "name ilike x" := by
    refine ⟨by decide, by decide, by decide, fun j => ?_⟩
    cases j <;> decide
  have ht : t.AllLeaves (RendersPhrase .none) :=
    ⟨⟨_, ⟨_, rfl, rfl⟩, hphrase⟩, trivial, ⟨⟨_, ⟨_, rfl, rfl⟩, hphrase⟩, trivial⟩, trivial⟩
  have hu : u.AllLeaves (RendersPhrase hooked) :=
    ⟨⟨_, ⟨_, rfl, rfl⟩, hphrase⟩, trivial, ⟨⟨_, ⟨_, rfl, rfl⟩, hphrase⟩, trivial⟩, trivial⟩
  exact ⟨rfl, render_eq_iff_alike rfl rfl (fun _ => ⟨_, rfl⟩) (fun _ => ⟨_, rfl⟩) ht hu⟩

end Tree

end FilterTree
