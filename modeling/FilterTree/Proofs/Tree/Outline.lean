import FilterTree.Outline
import FilterTree.Proofs.Markup
import FilterTree.Proofs.Tree.Phrases

/-! Outlines read back. Every slot has an entry, and what the labels show, put together by the shape
of the outline alone, is what the condition renders to, unless a leaf ends in a single backslash,
which then shows twice. -/

namespace FilterTree

namespace Markup

def startsStyled (cs : List Char) : Bool :=
  match pieces cs with
  | .tag n _ :: _ => n % 2 = 0
  | _ => false

theorem startsStyled_of_not_startsTag {cs : List Char} (h : ¬StartsTag cs) :
    startsStyled cs = false := by
  cases cs with
  | nil => rfl
  | cons c cs =>
    rw [startsStyled, pieces_of_plain h]
    rcases pieces cs with _ | ⟨_ | _, ps⟩ <;> rfl

theorem startsStyled_escape_append {rest : List Char} (hrest : Apart rest) (s : String) :
    startsStyled ((escape s).toList ++ rest) = false := by
  have hescaped (more : List Char) (hmore : Apart more) :
      startsStyled (escaped s.toList ++ more) = false := by
    by_cases hstarts : StartsTag s.toList
    · obtain ⟨k, tag, after, htag, heq⟩ := hstarts
      rw [heq, escaped_of_tag k htag, List.append_assoc, List.append_assoc, startsStyled,
        pieces_of_tag _ htag]
      exact decide_eq_false (by omega)
    · exact startsStyled_of_not_startsTag (mt (startsTag_of_escaped hmore) hstarts)
  rw [toList_escape]
  by_cases hend : EndsAlone (escaped s.toList)
  · rw [guardEnd_of_endsAlone hend, List.append_assoc]
    exact hescaped _ hrest.backslash
  · rw [guardEnd_of_not_endsAlone hend]
    exact hescaped _ hrest

theorem apart_nil : Apart [] where
  no_close := nofun
  no_tag := by
    rintro ⟨k, tag, rest, htag, heq⟩
    have hlength := congrArg List.length heq
    have hpos := htag.length_pos
    simp only [List.length_nil, List.length_append] at hlength
    omega

theorem apart_blank {rest : List Char} (h : rest.find? isBracket ≠ some ']') :
    Apart (' ' :: rest) where
  no_close := h
  no_tag hstarts := by
    rcases startsTag_cons_iff.mp hstarts with ⟨hc, -⟩ | ⟨hc, -⟩ <;> cases hc

end Markup

namespace Outline

def filled (inner : List Char) : List Char → List Char
  | '(' :: ' ' :: ')' :: rest => '(' :: (inner ++ ')' :: rest)
  | cs => cs

mutual

/-- The text of an entry. Those of the entries below stand between the parentheses of a branch,
which is told from other entries by its style. -/
def text : Outline → List Char
  | .entry label children =>
    let own := Markup.reading label.toList
    if Markup.startsStyled label.toList then filled (textOfAll children) own else own

def textOfAll : List Outline → List Char
  | [] => []
  | o :: rest => text o ++ if rest.isEmpty then [] else ' ' :: textOfAll rest

end

end Outline

namespace Tree

mutual

/-- An entry in the style of branches for each condition, and a plain one for each comparison, which
has nothing below it. -/
inductive Outlined : Tree → Outline → Prop where
  | leaf {id : NodeId} {h : Hooks} {c : Context} {label : String}
    (hplain : Markup.startsStyled label.toList = false) :
    Outlined (.leaf id h c) (.entry label [])
  | branch {id : NodeId} {h : Hooks} {slots : List (Join × Tree)} {label : String}
    {children : List Outline} (hstyled : Markup.startsStyled label.toList = true)
    (hchildren : OutlinedSlots slots children) : Outlined (.branch id h slots) (.entry label children)

inductive OutlinedSlots : List (Join × Tree) → List Outline → Prop where
  | nil : OutlinedSlots [] []
  | cons {j : Join} {t : Tree} {o : Outline} {slots : List (Join × Tree)} {others : List Outline} :
    Outlined t o → OutlinedSlots slots others → OutlinedSlots ((j, t) :: slots) (o :: others)

end

def joinMark (j : Join) (rest : List (Join × Tree)) : String :=
  if rest.isEmpty then "" else s!" [dim]{j.name}[/dim]"

def labelText (given : Hooks) (h : Hooks) (c : Context) : String :=
  String.ofList (Markup.guardEnd (leafText given h c).toList)

section
variable {given : Hooks} {f g : Hooks → Context → String}

theorem joinMark_cons (j : Join) (x : Join × Tree) (rest : List (Join × Tree)) :
    joinMark j (x :: rest) = s!" [dim]{j.name}[/dim]" :=
  rfl

theorem apart_joinMark (j : Join) (rest : List (Join × Tree)) :
    Markup.Apart (joinMark j rest).toList := by
  cases rest with
  | nil => exact Markup.apart_nil
  | cons x rest =>
    have hbegin : ∃ more, (joinMark j (x :: rest)).toList = ' ' :: '[' :: more := by
      rw [joinMark_cons]
      cases j <;> exact ⟨_, rfl⟩
    obtain ⟨more, hmore⟩ := hbegin
    rw [hmore]
    exact Markup.apart_blank (by simp [Markup.isBracket])

theorem reading_joinMark (j : Join) (rest : List (Join × Tree)) :
    Markup.reading (joinMark j rest).toList =
      if rest.isEmpty then [] else ' ' :: j.name.toList := by
  cases rest with
  | nil => rfl
  | cons x rest =>
    rw [joinMark_cons, List.isEmpty_cons]
    cases j <;> decide

theorem reading_branch_label (j : Join) (rest : List (Join × Tree)) :
    Markup.reading (s!"[bold]( )[/bold]{joinMark j rest}").toList =
      '(' :: ' ' :: ')' :: Markup.reading (joinMark j rest).toList := by
  cases rest with
  | nil => exact (by decide : Markup.reading ("[bold]( )[/bold]" ++ "").toList = ['(', ' ', ')'])
  | cons x rest =>
    rw [joinMark_cons]
    cases j <;> decide

theorem startsStyled_branch_label (join : String) :
    Markup.startsStyled (s!"[bold]( )[/bold]{join}").toList = true := by
  have hbold : Markup.IsTag "[bold]".toList := ⟨'b', "old".toList, rfl, rfl, by simp [Markup.isBracket]⟩
  have hlabel : (s!"[bold]( )[/bold]{join}").toList =
      List.replicate 0 '\\' ++ ("[bold]".toList ++ ("( )[/bold]".toList ++ join.toList)) := by
    change ("[bold]( )[/bold]" ++ join).toList = _
    rw [String.toList_append]
    rfl
  rw [hlabel, Markup.startsStyled, Markup.pieces_of_tag 0 hbold]
  rfl

theorem result_outlineSlots_cons (overrides : Hooks) (j : Join) (t : Tree)
    (rest : List (Join × Tree)) : (outlineSlots overrides ((j, t) :: rest)).result =
      (outlineEntry overrides (joinMark j rest) t).result >>= fun o =>
        (outlineSlots overrides rest).result >>= fun os => .ok (o :: os) := by
  simp only [outlineSlots, Outcome.result_bind, Outcome.result_pure]
  rfl

theorem result_outlineEntry_leaf {id : NodeId} {h : Hooks} {c : Context} {s : String}
    (hs : RendersAs given (.leaf 0 h c) s) (join : String) :
    (outlineEntry given join (.leaf id h c)).result = .ok (.entry (Markup.escape s ++ join) []) := by
  obtain ⟨v, hv, htext⟩ := hs
  have hrender : ((Tree.leaf id h c).render given).result = .ok v := by
    rw [← hv]
    cases given <;> rfl
  rw [outlineEntry, Outcome.result_bind_of_ok _ hrender, leafLabel, htext]
  rfl

theorem textOfAll_cons {o : Outline} {others : List Outline} {j : Join} {t : Tree}
    {rest : List (Join × Tree)} (ho : o.text = (t.inSlot (t.wording f)).toList ++
      if rest.isEmpty then [] else ' ' :: j.name.toList)
    (hempty : others.isEmpty = rest.isEmpty)
    (hothers : Outline.textOfAll others = (joinSlots (wordings f rest)).toList) :
    Outline.textOfAll (o :: others) = (joinSlots (wordings f ((j, t) :: rest))).toList := by
  rw [Outline.textOfAll, ho, hempty, hothers, toList_joinSlots_cons, List.append_assoc]
  cases rest with
  | nil => rfl
  | cons x rest => simp [joinTail]

theorem OutlinedSlots.isEmpty_eq {slots : List (Join × Tree)} {os : List Outline}
    (h : OutlinedSlots slots os) : os.isEmpty = slots.isEmpty := by
  cases h <;> rfl

mutual

theorem exists_outlineEntry (j : Join) (rest : List (Join × Tree)) : ∀ t : Tree,
    t.AllLeaves (RendersText given) → ∃ o,
      (outlineEntry given (joinMark j rest) t).result = .ok o ∧ Outlined t o ∧
      o.text = (t.inSlot (t.wording (labelText given))).toList ++
        if rest.isEmpty then [] else ' ' :: j.name.toList
  | .leaf id h c, ⟨s, hs⟩ => by
    have happart := apart_joinMark j rest
    have hplain : Markup.startsStyled (Markup.escape s ++ joinMark j rest).toList = false := by
      rw [String.toList_append]
      exact Markup.startsStyled_escape_append happart s
    refine ⟨_, result_outlineEntry_leaf hs _, .leaf hplain, ?_⟩
    rw [Outline.text, if_neg (by rw [hplain]; decide), String.toList_append,
      Markup.reading_escape_append happart, reading_joinMark, inSlot, wording, labelText,
      hs.leafText_eq, String.toList_ofList]
  | .branch id h slots, ht => by
    obtain ⟨children, hchildren, houtlined, htext⟩ := exists_outlineSlots slots ht
    have hstyled := startsStyled_branch_label (joinMark j rest)
    refine ⟨.entry s!"[bold]( )[/bold]{joinMark j rest}" children, ?_, .branch hstyled houtlined, ?_⟩
    · rw [outlineEntry, Outcome.result_bind_of_ok _ hchildren]
      rfl
    · rw [Outline.text, if_pos hstyled, reading_branch_label, Outline.filled, htext,
        reading_joinMark]
      simp [inSlot, wording]

theorem exists_outlineSlots : ∀ slots : List (Join × Tree),
    AllLeavesOfSlots (RendersText given) slots → ∃ os,
      (outlineSlots given slots).result = .ok os ∧ OutlinedSlots slots os ∧
      Outline.textOfAll os = (joinSlots (wordings (labelText given) slots)).toList
  | [], _ => ⟨[], rfl, .nil, rfl⟩
  | (j, t) :: rest, ht => by
    obtain ⟨o, ho, houtlined, htext⟩ := exists_outlineEntry j rest t ht.1
    obtain ⟨others, hothers, houtlinedRest, htexts⟩ := exists_outlineSlots rest ht.2
    refine ⟨o :: others, ?_, .cons houtlined houtlinedRest,
      textOfAll_cons htext houtlinedRest.isEmpty_eq htexts⟩
    rw [result_outlineSlots_cons, ho, hothers]
    rfl

end

/-! ### Leaves that show longer than they are -/

mutual

theorem length_wording (hle : ∀ h c, (f h c).length ≤ (g h c).length) : ∀ t : Tree,
    (t.inSlot (t.wording f)).length ≤ (t.inSlot (t.wording g)).length ∧
      ((t.inSlot (t.wording f)).length = (t.inSlot (t.wording g)).length →
        t.AllLeaves fun h c => (f h c).length = (g h c).length)
  | .leaf _ h c => ⟨hle h c, fun heq => heq⟩
  | .branch _ _ slots => by
    obtain ⟨hslots, hsame⟩ := length_joinSlots hle slots
    simp only [inSlot, wording, String.length_append]
    exact ⟨by omega, fun heq => hsame (by omega)⟩

theorem length_joinSlots (hle : ∀ h c, (f h c).length ≤ (g h c).length) :
    ∀ slots : List (Join × Tree),
      (joinSlots (wordings f slots)).length ≤ (joinSlots (wordings g slots)).length ∧
      ((joinSlots (wordings f slots)).length = (joinSlots (wordings g slots)).length →
        AllLeavesOfSlots (fun h c => (f h c).length = (g h c).length) slots)
  | [] => ⟨Nat.le_refl _, fun _ => trivial⟩
  | [(j, t)] => by
    obtain ⟨ht, hsame⟩ := length_wording hle t
    exact ⟨ht, fun heq => ⟨hsame heq, trivial⟩⟩
  | (j, t) :: x :: rest => by
    obtain ⟨ht, htsame⟩ := length_wording hle t
    obtain ⟨hrest, hrestsame⟩ := length_joinSlots hle (x :: rest)
    simp only [joinSlots_wordings_cons, String.length_append]
    exact ⟨by omega, fun heq => ⟨htsame (by omega), hrestsame (by omega)⟩⟩

end

mutual

theorem wording_congr : ∀ {t : Tree}, (t.AllLeaves fun h c => f h c = g h c) →
    t.wording f = t.wording g
  | .leaf _ _ _, ht => ht
  | .branch _ _ _, ht => congrArg joinSlots (wordings_congr ht)

theorem wordings_congr : ∀ {slots : List (Join × Tree)},
    AllLeavesOfSlots (fun h c => f h c = g h c) slots → wordings f slots = wordings g slots
  | [], _ => rfl
  | (j, t) :: rest, ht => by
    rw [wordings, wordings, wording_congr ht.1, wordings_congr ht.2]

end

def LeafEndsAlone (given : Hooks) (h : Hooks) (c : Context) : Prop :=
  Markup.EndsAlone (leafText given h c).toList

instance (given h : Hooks) (c : Context) : Decidable (LeafEndsAlone given h c) :=
  inferInstanceAs (Decidable (Markup.EndsAlone _))

theorem labelText_of_not_endsAlone {h : Hooks} {c : Context} (hend : ¬LeafEndsAlone given h c) :
    labelText given h c = leafText given h c := by
  rw [labelText, Markup.guardEnd_of_not_endsAlone hend, String.ofList_toList]

theorem length_labelText_of_endsAlone {h : Hooks} {c : Context} (hend : LeafEndsAlone given h c) :
    (labelText given h c).length = (leafText given h c).length + 1 := by
  rw [labelText, Markup.guardEnd_of_endsAlone hend, String.length_ofList, List.length_append,
    String.length_toList]
  rfl

theorem labelTexts_eq_iff (slots : List (Join × Tree)) :
    joinSlots (wordings (labelText given) slots) = joinSlots (wordings (leafText given) slots) ↔
      AllLeavesOfSlots (fun h c => ¬LeafEndsAlone given h c) slots := by
  constructor
  · intro heq
    have hle (h : Hooks) (c : Context) :
        (leafText given h c).length ≤ (labelText given h c).length := by
      by_cases hend : LeafEndsAlone given h c
      · rw [length_labelText_of_endsAlone hend]
        exact Nat.le_succ _
      · rw [labelText_of_not_endsAlone hend]
    refine AllLeavesOfSlots.mono (fun hlength hend => ?_)
      ((length_joinSlots hle slots).2 (congrArg String.length heq.symm))
    rw [length_labelText_of_endsAlone hend] at hlength
    omega
  · intro hslots
    exact congrArg joinSlots (wordings_congr (hslots.mono labelText_of_not_endsAlone))

end

/-- A condition whose leaves render to texts has an outline with an entry for each slot, and what the
entries show adds up to what the condition renders to, just where no leaf ends in a single
backslash. -/
theorem outline_text_eq_render_iff {given : Hooks} {id : NodeId} {h : Hooks}
    {slots : List (Join × Tree)} (label : String)
    (hgiven : slots ≠ [] → ∃ p, given.resolve 0 = .ok p)
    (ht : AllLeavesOfSlots (RendersText given) slots) :
    ∃ children s,
      ((branch id h slots).outline given label).result =
        .ok (.entry s!"[bold]{Markup.escape label}[/bold]" children) ∧
      ((branch id h slots).render given).result = .ok (.text s) ∧
      OutlinedSlots slots children ∧
      (String.ofList (Outline.textOfAll children) = s ↔
        AllLeavesOfSlots (fun h c => ¬LeafEndsAlone given h c) slots) := by
  obtain ⟨children, hchildren, houtlined, htext⟩ := exists_outlineSlots slots ht
  refine ⟨children, _, ?_, render_texts hgiven ht, houtlined, ?_⟩
  · rw [outline, Tree.slots, Outcome.result_bind_of_ok _ hchildren]
    rfl
  · rw [htext, String.ofList_toList, labelTexts_eq_iff]

/-- Brackets and backslashes in leaves, one of which ends in two of them. -/
theorem outline_text_eq_render_iff_brackets :
    let inner : List (Join × Tree) := [(.and, .leaf 2 .none
      ⟨.value (.text "path"), .value (.operator .like), .value (.text "c:\\\\")⟩)]
    let slots : List (Join × Tree) := [(.or, .leaf 1 .none
      ⟨.value (.text "\\[tag]"), .value (.operator .eq), .value (.text "[x[y]")⟩),
      (.and, .branch 3 .none inner), (.and, .branch 4 .none [])]
    AllLeavesOfSlots (RendersText .none) slots ∧
    ∃ children, ((branch 0 .none slots).outline .none "all").result =
        .ok (.entry "[bold]all[/bold]" children) ∧
      OutlinedSlots slots children ∧
      ((branch 0 .none slots).render .none).result =
        .ok (.text (String.ofList (Outline.textOfAll children))) := by
  intro inner slots
  let label := "all"
  have hlabel : s!"[bold]{Markup.escape label}[/bold]" = "[bold]all[/bold]" := by decide
  have ht : AllLeavesOfSlots (RendersText .none) slots :=
    ⟨⟨_, _, rfl, rfl⟩, ⟨⟨_, _, rfl, rfl⟩, trivial⟩, trivial, trivial⟩
  have hends : AllLeavesOfSlots (fun h c => ¬LeafEndsAlone .none h c) slots := by
    refine ⟨?_, ⟨?_, trivial⟩, trivial, trivial⟩
    all_goals
      change ¬LeafEndsAlone _ _ _
      decide
  obtain ⟨children, s, houtline, hrender, houtlined, hiff⟩ :=
    outline_text_eq_render_iff label (fun _ => ⟨_, rfl⟩) ht
  rw [hlabel] at houtline
  exact ⟨ht, children, houtline, houtlined, by rw [hiff.mpr hends, hrender]⟩

end Tree

end FilterTree
