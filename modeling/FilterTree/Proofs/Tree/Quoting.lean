import FilterTree.Proofs.Tree.Bare
import FilterTree.Proofs.Tree.Wording
import FilterTree.Proofs.Value.Scanner

/-! The text of a condition whose keys and values are quoted can be read in one way only. Each part
of it says where it ends, so that nothing in a key or a value shows as structure. -/

namespace FilterTree

namespace Scan

def symbols : List (List Char) :=
  ["!=".toList, "!~".toList, ">=".toList, ">".toList, "<=".toList, "<".toList, "=".toList,
    "~".toList, " not ilike ".toList, " not in ".toList, " is not ".toList, " ilike ".toList,
    " is ".toList, " in ".toList]

def symbol (cs : List Char) : Option (List Char × List Char) :=
  (symbols.find? (·.isPrefixOf cs)).map fun w => (w, cs.drop w.length)

theorem symbol_append_of (o : Operator) {text : List Char} (heq : ['='].isPrefixOf text = false)
    (hnot : "not ".toList.isPrefixOf text = false) :
    symbol (o.symbol.toList ++ text) = some (o.symbol.toList, text) := by
  have hfind : symbols.find? (·.isPrefixOf (o.symbol.toList ++ text)) = some o.symbol.toList := by
    cases o <;> simp_all [symbols, Operator.symbol]
  rw [symbol, hfind, Option.map_some, List.drop_left]

theorem symbol_append (o : Operator) {v : Value} (hv : v.isPlain = true) (rest : List Char) :
    symbol (o.symbol.toList ++ (v.literal.toList ++ rest)) =
      some (o.symbol.toList, v.literal.toList ++ rest) := by
  obtain ⟨c, tail, hc, hopens⟩ := head?_literal hv
  refine symbol_append_of o ?_ ?_
  · have hne : c ≠ '=' := by
      rintro rfl
      revert hopens
      simp
    simp [hc, List.isPrefixOf, hne.symm]
  · rcases hopens with ⟨rfl, -⟩ | hopens
    · simp [Value.literal, List.isPrefixOf]
    · have hne : c ≠ 'n' := by
        rintro rfl
        revert hopens
        decide
      simp [hc, List.isPrefixOf, hne.symm]

end Scan

namespace Tree

/-! ### The text of a tree -/

/-- Whether a leaf is without hooks and compares a string with a plain value by a known operator. -/
def IsQuotableLeaf (h : Hooks) (c : Context) : Prop :=
  h.IsBare ∧ ∃ key o v, c = ⟨.value (.text key), .value (.operator o), .value v⟩ ∧ v.isPlain = true

def Quotable (t : Tree) : Prop :=
  t.AllLeaves IsQuotableLeaf

def AllQuotable (slots : List (Join × Tree)) : Prop :=
  AllLeavesOfSlots IsQuotableLeaf slots

def comparison (key : String) (o : Operator) (v : Value) : String :=
  delimited '"' key ++ o.symbol ++ v.literal

mutual

def quotedText : Tree → String
  | .leaf _ _ ⟨.value (.text key), .value (.operator o), .value v⟩ => comparison key o v
  | .leaf _ _ _ => ""
  | .branch _ _ slots => joinSlots (quotedTexts slots)

def quotedTexts : List (Join × Tree) → List (Join × String)
  | [] => []
  | (j, t) :: rest => (j, t.inSlot (quotedText t)) :: quotedTexts rest

end

theorem mapM_texts {f : Join × Value → Option (Join × String)}
    (hf : ∀ j s, f (j, .text s) = some (j, s)) (texts : List (Join × String)) :
    (texts.map fun (j, s) => (j, Value.text s)).mapM f = some texts := by
  induction texts with
  | nil => rfl
  | cons x rest ih =>
    rw [List.map_cons, List.mapM_cons, ih]
    simp only [hf]
    rfl

theorem joinRendered_texts (texts : List (Join × String)) :
    joinRendered (texts.map fun (j, s) => (j, .text s)) = .ok (joinSlots texts) := by
  rw [joinRendered, mapM_texts fun _ _ => rfl]

theorem renderExpression_quoted {i : Nat} {node : Hooks} (hnode : node.IsBare) {key : String}
    {o : Operator} {v w : Value} (h : (renderExpression
      ⟨.value (.text key), .value (.operator o), .value v⟩ (.set i Shipped.postgresHooks)
      node).result = .ok w) : w = .text (comparison key o v) := by
  rw [renderExpression_of_bare hnode i rfl, renderParts, runHook_of_bare hnode .renderKey i rfl,
    runHook_of_bare hnode .renderOperator i rfl, runHook_of_bare hnode .renderValue i rfl] at h
  obtain ⟨keyText, hkey, h⟩ := Outcome.bind_eq_ok_iff.mp h
  obtain ⟨symbol, hsymbol, h⟩ := Outcome.bind_eq_ok_iff.mp h
  obtain ⟨literal, hliteral, h⟩ := Outcome.bind_eq_ok_iff.mp h
  have hkeyText : keyText = .text (delimited '"' key) := (Except.ok.inj hkey).symm
  have hsymbolText : symbol = .text o.symbol := by
    cases o <;> exact (Except.ok.inj hsymbol).symm
  have hliteralText : literal = .text v.literal := by
    obtain ⟨text, htext, hliteral⟩ := Outcome.bind_eq_ok_iff.mp hliteral
    cases hliteral
    change (Outcome.ofExcept (v.written Value.literal)).result = .ok text at htext
    rw [Outcome.result_ofExcept, Value.written] at htext
    split at htext
    · exact congrArg Value.text (Except.ok.inj htext).symm
    · cases htext
  subst hkeyText hsymbolText hliteralText
  have hw := (Except.ok.inj h).symm
  rw [hw, comparison]
  simp [String.join, String.append_assoc]

mutual

theorem renderWith_quoted {i : Nat} : ∀ t : Tree, t.Quotable → ∀ w : Value,
    (t.renderWith (.set i Shipped.postgresHooks)).result = .ok w → w = .text t.quotedText
  | .leaf _ h c, ⟨hh, key, o, v, hc, _⟩, w, hw => by
    subst hc
    exact renderExpression_quoted hh hw
  | .branch _ _ slots, ht, w, hw => by
    obtain ⟨parts, hparts, hw⟩ := Outcome.bind_eq_ok_iff.mp hw
    obtain ⟨text, htext, hw⟩ := Outcome.bind_eq_ok_iff.mp hw
    rw [Outcome.result_ofExcept, renderSlots_quoted slots ht parts hparts, joinRendered_texts]
      at htext
    cases htext
    cases hw
    rfl

theorem renderSlots_quoted {i : Nat} : ∀ slots : List (Join × Tree), AllQuotable slots →
    ∀ parts, (renderSlots (.set i Shipped.postgresHooks) slots).result = .ok parts →
    parts = (quotedTexts slots).map fun (j, s) => (j, .text s)
  | [], _, parts, h => by
    cases h
    rfl
  | (j, t) :: rest, ht, parts, h => by
    obtain ⟨v, hv, h⟩ := Outcome.bind_eq_ok_iff.mp h
    obtain ⟨others, hothers, h⟩ := Outcome.bind_eq_ok_iff.mp h
    cases h
    rw [renderWith_quoted t ht.1 v hv, renderSlots_quoted rest ht.2 others hothers]
    cases t <;> rfl

end

theorem render_quoted {i : Nat} {t : Tree} (ht : t.Quotable) {w : Value}
    (hw : (t.render (.set i Shipped.postgresHooks)).result = .ok w) : w = .text t.quotedText := by
  unfold render at hw
  split at hw
  · cases hw
    rfl
  · exact renderWith_quoted _ ht w hw

/-! ### Trees that agree -/

mutual

/-- Two trees of one shape whose leaves compare the same by the same symbol. -/
inductive Agree : Tree → Tree → Prop where
  | leaf {i k : NodeId} {h l : Hooks} {key : String} {o p : Operator} {v : Value} :
      o.symbol = p.symbol →
      Agree (.leaf i h ⟨.value (.text key), .value (.operator o), .value v⟩)
        (.leaf k l ⟨.value (.text key), .value (.operator p), .value v⟩)
  | branch {i k : NodeId} {h l : Hooks} {xs ys : List (Join × Tree)} :
      AgreeSlots xs ys → Agree (.branch i h xs) (.branch k l ys)

inductive AgreeSlots : List (Join × Tree) → List (Join × Tree) → Prop where
  | nil : AgreeSlots [] []
  | last {j k : Join} {t u : Tree} : Agree t u → AgreeSlots [(j, t)] [(k, u)]
  | cons {j : Join} {t u : Tree} {x y : Join × Tree} {xs ys : List (Join × Tree)} :
      Agree t u → AgreeSlots (x :: xs) (y :: ys) →
      AgreeSlots ((j, t) :: x :: xs) ((j, u) :: y :: ys)

end

theorem comparison_cancel {key key' : String} {o p : Operator} {v w : Value}
    (hv : v.isPlain = true) (hw : w.isPlain = true) {r r' : List Char} (hr : Scan.Stops r)
    (hr' : Scan.Stops r')
    (h : (comparison key o v).toList ++ r = (comparison key' p w).toList ++ r') :
    key = key' ∧ o.symbol = p.symbol ∧ v = w ∧ r = r' := by
  have hsymbol (o : Operator) (text : List Char) :
      BeginsWithout (· == '"') (o.symbol.toList ++ text) := by
    cases o <;> simp [BeginsWithout, Operator.symbol]
  simp only [comparison, String.toList_append, List.append_assoc] at h
  -- both texts are scanned from the left: the key, then the symbol, then the literal
  have hkeys := congrArg (Scan.quotedText '"') h
  rw [Scan.quotedText_delimited _ _ (hsymbol o _), Scan.quotedText_delimited _ _ (hsymbol p _)]
    at hkeys
  obtain ⟨rfl, hafter⟩ := Prod.mk.inj (Option.some.inj hkeys)
  have hsymbols := congrArg Scan.symbol hafter
  rw [Scan.symbol_append o hv, Scan.symbol_append p hw] at hsymbols
  obtain ⟨ho, hlast⟩ := Prod.mk.inj (Option.some.inj hsymbols)
  have hliterals := congrArg
    (Scan.literal (max v.literal.toList.length w.literal.toList.length)) hlast
  rw [Scan.literal_append v hv _ _ (Nat.le_max_left _ _) hr,
    Scan.literal_append w hw _ _ (Nat.le_max_right _ _) hr'] at hliterals
  obtain ⟨rfl, rfl⟩ := Prod.mk.inj (Option.some.inj hliterals)
  exact ⟨rfl, String.toList_inj.mp ho, rfl, rfl⟩

/-! ### Reading the text back -/

def quotedLeaf (_ : Hooks) (c : Context) : String :=
  quotedText (.leaf 0 .none c)

mutual

theorem wording_quotedLeaf : ∀ t : Tree, t.Quotable → t.wording quotedLeaf = t.quotedText
  | .leaf _ _ _, ⟨_, _, _, _, hc, _⟩ => by
    subst hc
    rfl
  | .branch _ _ slots, ht => by rw [wording, quotedText, wordings_quotedLeaf slots ht]

theorem wordings_quotedLeaf : ∀ slots : List (Join × Tree), AllQuotable slots →
    wordings quotedLeaf slots = quotedTexts slots
  | [], _ => rfl
  | (j, t) :: rest, ht => by
    rw [wordings, quotedTexts, wording_quotedLeaf t ht.1, wordings_quotedLeaf rest ht.2]

end

mutual

theorem agree_of_alike : ∀ {t u : Tree},
    Alike (fun h c l d => Agree (.leaf 0 h c) (.leaf 0 l d)) t u → Agree t u
  | _, _, .leaf hleaf => by
    cases hleaf with
    | leaf ho => exact .leaf ho
  | _, _, .branch hslots => .branch (agreeSlots_of_alikeSlots hslots)

theorem agreeSlots_of_alikeSlots : ∀ {xs ys : List (Join × Tree)},
    AlikeSlots (fun h c l d => Agree (.leaf 0 h c) (.leaf 0 l d)) xs ys → AgreeSlots xs ys
  | _, _, .nil => .nil
  | _, _, .last halike => .last (agree_of_alike halike)
  | _, _, .cons halike hslots => .cons (agree_of_alike halike) (agreeSlots_of_alikeSlots hslots)

end

theorem AfterPayload.stops {rest : List Char} (h : AfterPayload rest) : Scan.Stops rest := by
  cases h with
  | ends h =>
    intro c hc
    have hparen : c = ')' := by simpa using h c hc
    rw [hparen]
    decide
  | join j rest => exact .cons (by decide) _

theorem distinct_quotedLeaf :
    Distinct quotedLeaf quotedLeaf IsQuotableLeaf IsQuotableLeaf fun h c l d =>
      Agree (.leaf 0 h c) (.leaf 0 l d) := by
  have hopens : ∀ {h : Hooks} {c : Context}, IsQuotableLeaf h c →
      ∃ ch rest, (quotedLeaf h c).toList = ch :: rest ∧ ch ≠ '(' ∧ ch ≠ ')' := by
    rintro h c ⟨-, key, o, v, rfl, -⟩
    exact ⟨'"', _, by simp [quotedLeaf, quotedText, comparison, Scan.toList_delimited]; rfl,
      by decide, by decide⟩
  refine ⟨hopens, hopens, ?_⟩
  rintro h c l d ⟨-, key, o, v, rfl, hv⟩ ⟨-, key', p, w, rfl, hw⟩ r r' hr hr' heq
  obtain ⟨rfl, ho, rfl, rfl⟩ := comparison_cancel hv hw hr.stops hr'.stops heq
  exact ⟨.leaf ho, rfl⟩

theorem agreeSlots_of_text (xs ys : List (Join × Tree)) (hx : AllQuotable xs)
    (hy : AllQuotable ys) (r r' : List Char) (hr : Ends r) (hr' : Ends r')
    (h : (joinSlots (quotedTexts xs)).toList ++ r = (joinSlots (quotedTexts ys)).toList ++ r') :
    AgreeSlots xs ys ∧ r = r' := by
  rw [← wordings_quotedLeaf xs hx, ← wordings_quotedLeaf ys hy] at h
  obtain ⟨halike, hrest⟩ := alikeSlots_of_wordings distinct_quotedLeaf xs ys
    hx hy r r' hr hr' h
  exact ⟨agreeSlots_of_alikeSlots halike, hrest⟩

/-- The text of a condition with quoted keys and values tells its shape, the joins between its
slots, and the key, symbol and value of every leaf. -/
theorem agree_of_render_eq {t u : Tree} (ht : t.Quotable) (hu : u.Quotable)
    (htb : t.isBranch = true) (hub : u.isBranch = true) {i k : Nat} {w : Value}
    (hrt : (t.render (.set i Shipped.postgresHooks)).result = .ok w)
    (hru : (u.render (.set k Shipped.postgresHooks)).result = .ok w) : Agree t u := by
  have hwt := render_quoted ht hrt
  have hwu := render_quoted hu hru
  cases t with
  | leaf => cases htb
  | branch i h xs =>
    cases u with
    | leaf => cases hub
    | branch k l ys =>
      have htext : joinSlots (quotedTexts xs) = joinSlots (quotedTexts ys) :=
        Value.text.inj (hwt.symm.trans hwu)
      obtain ⟨hslots, -⟩ := agreeSlots_of_text xs ys ht hu [] [] .nil .nil (by rw [htext])
      exact .branch hslots

/-- Two operators share a symbol, and the join of the last slot does not show. -/
theorem agree_of_render_eq_shared :
    let key : Operand := .value (.text "a\"")
    let value : Operand := .value (.list [.text "')", .null])
    let t : Tree := .branch 0 .none
      [(.and, .leaf 1 .none ⟨key, .value (.operator .match), value⟩), (.or, .branch 2 .none [])]
    let u : Tree := .branch 3 .none
      [(.and, .leaf 4 .none ⟨key, .value (.operator .ltree), value⟩), (.and, .branch 5 .none [])]
    (t.render (.set 1 Shipped.postgresHooks)).result =
        .ok (.text "\"a\"\"\"~(''')',null) and ()") ∧
      (u.render (.set 1 Shipped.postgresHooks)).result =
        .ok (.text "\"a\"\"\"~(''')',null) and ()") ∧
      Agree t u := by
  intro key value t u
  have ht : t.Quotable := ⟨⟨Hooks.isBare_none, _, _, _, rfl, rfl⟩, trivial, trivial⟩
  have hu : u.Quotable := ⟨⟨Hooks.isBare_none, _, _, _, rfl, rfl⟩, trivial, trivial⟩
  have hrt : (t.render (.set 1 Shipped.postgresHooks)).result =
      .ok (.text "\"a\"\"\"~(''')',null) and ()") := by rfl
  have hru : (u.render (.set 1 Shipped.postgresHooks)).result =
      .ok (.text "\"a\"\"\"~(''')',null) and ()") := by rfl
  exact ⟨hrt, hru, agree_of_render_eq ht hu rfl rfl hrt hru⟩

end Tree

end FilterTree
