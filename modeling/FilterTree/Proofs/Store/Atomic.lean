import FilterTree.Proofs.Store.InPlace

/-! Calls that fail leave every condition and every expression as they were, although nothing that
has been written is ever undone: what can fail comes before the first write, or writes only to what
the call itself has made. -/

namespace FilterTree

/-! ### Nodes from a number on -/

/-- Nodes from `n` on hold only nodes from `n` on. -/
structure Store.Closed (n : Nat) (s : Store) : Prop where
  le_size : n ≤ s.nodes.size
  le_of_holds : ∀ {a b}, n ≤ a → s.Holds a b → n ≤ b

namespace Store

theorem closed_size (s : Store) : s.Closed s.nodes.size where
  le_size := le_rfl
  le_of_holds ha hab := absurd (lt_size_of_holds hab) (Nat.not_lt_of_le ha)

theorem Closed.of_slots {n : Nat} {s t : Store} (hs : s.Closed n)
    (h : ∀ i, t.slots i = s.slots i) (hsize : s.nodes.size ≤ t.nodes.size) : t.Closed n where
  le_size := hs.le_size.trans hsize
  le_of_holds ha hab := hs.le_of_holds ha (by rwa [Holds, h] at hab)

theorem Closed.of_nodes_eq {n : Nat} {s t : Store} (hs : s.Closed n) (h : t.nodes = s.nodes) :
    t.Closed n :=
  hs.of_slots (fun i => by simp only [Store.slots, h]) (by rw [h])

theorem Closed.le_of_mem_ids {n : Nat} {s : Store} (hs : s.Closed n) {a b : NodeId} (ha : n ≤ a)
    (h : b ∈ (s.view a).ids) : n ≤ b := by
  have hpath := reflTransGen_of_mem_ids h
  clear h
  induction hpath with
  | refl => exact ha
  | tail _ hbc ih => exact hs.le_of_holds ih hbc

theorem mem_slots_setSlots {s : Store} {id i : NodeId} {slots : List Slot} {slot : Slot}
    (h : slot ∈ (s.setSlots id slots).slots i) : slot ∈ slots ∨ slot ∈ s.slots i := by
  by_cases hi : id = i
  · subst hi
    unfold Store.slots at h
    rw [nodes_setSlots, if_pos rfl] at h
    cases hn : s.nodes[id]? with
    | none => simp [hn] at h
    | some n =>
      rw [hn] at h
      exact .inl h
  · rw [slots_setSlots_of_ne _ hi] at h
    exact .inr h

theorem Closed.setSlots {n : Nat} {s : Store} (hs : s.Closed n) (id : NodeId) {slots : List Slot}
    (hslots : ∀ slot ∈ slots, n ≤ slot.payload) : (s.setSlots id slots).Closed n where
  le_size := hs.le_size.trans_eq (size_setSlots ..).symm
  le_of_holds ha hab := by
    obtain ⟨slot, hslot, rfl⟩ := List.mem_map.mp hab
    rcases mem_slots_setSlots hslot with h | h
    · exact hslots slot h
    · exact hs.le_of_holds ha (List.mem_map_of_mem h)

theorem Closed.le_payload {n : Nat} {s : Store} (hs : s.Closed n) {owner : NodeId}
    (ho : n ≤ owner) {slot : Slot} {slots : List Slot}
    (hsame : slots.map (·.payload) = (s.slots owner).map (·.payload)) (hslot : slot ∈ slots) :
    n ≤ slot.payload := by
  apply hs.le_of_holds ho
  rw [Holds, ← hsame]
  exact List.mem_map_of_mem hslot

end Store

namespace Procedure
open Store
variable {α β : Type} {n : Nat}

theorem bind_of_ok {p : Procedure α} (f : α → Procedure β) {s : Store} {a : α}
    (h : (p s).2.result = .ok a) :
    ((p >>= f) s).1 = (f a (p s).1).1 ∧ ((p >>= f) s).2.result = (f a (p s).1).2.result := by
  change (Procedure.bind p f s).1 = _ ∧ (Procedure.bind p f s).2.result = _
  unfold Procedure.bind
  rcases hp : p s with ⟨t, events, _ | b⟩
  · simp [hp] at h
  · rw [hp] at h
    cases h
    exact ⟨rfl, rfl⟩

theorem bind_of_error {p : Procedure α} (f : α → Procedure β) {s : Store} {e : Fault}
    (h : (p s).2.result = .error e) :
    ((p >>= f) s).1 = (p s).1 ∧ ((p >>= f) s).2.result = .error e := by
  change (Procedure.bind p f s).1 = _ ∧ (Procedure.bind p f s).2.result = _
  unfold Procedure.bind
  rcases hp : p s with ⟨t, events, _ | b⟩
  · rw [hp] at h
    cases h
    exact ⟨rfl, rfl⟩
  · simp [hp] at h

/-! ### Checks first, writes last -/

def Quiet (p : Procedure α) : Prop :=
  ∀ s, (p s).1.nodes = s.nodes

def Sure (p : Procedure α) : Prop :=
  ∀ s e, (p s).2.result ≠ .error e

def Atomic (p : Procedure α) : Prop :=
  ∀ s e, (p s).2.result = .error e → (p s).1.nodes = s.nodes

theorem Quiet.atomic {p : Procedure α} (hp : Quiet p) : Atomic p :=
  fun s _ _ => hp s

theorem Sure.atomic {p : Procedure α} (hp : Sure p) : Atomic p :=
  fun s e h => absurd h (hp s e)

theorem Sure.bind {p : Procedure α} {f : α → Procedure β} (hp : Sure p) (hf : ∀ a, Sure (f a)) :
    Sure (p >>= f) := by
  intro s e
  cases hr : (p s).2.result with
  | error f => exact absurd hr (hp s f)
  | ok a =>
    rw [(bind_of_ok f hr).2]
    exact hf a _ e

theorem Quiet.bind_atomic {p : Procedure α} {f : α → Procedure β} (hp : Quiet p)
    (hf : ∀ a, Atomic (f a)) : Atomic (p >>= f) := by
  intro s e h
  cases hr : (p s).2.result with
  | error _ => rw [(bind_of_error f hr).1, hp s]
  | ok a =>
    obtain ⟨hstore, hresult⟩ := bind_of_ok f hr
    rw [hresult] at h
    rw [hstore, hf a _ e h, hp s]

theorem Atomic.bind_sure {p : Procedure α} {f : α → Procedure β} (hp : Atomic p)
    (hf : ∀ a, Sure (f a)) : Atomic (p >>= f) := by
  intro s e h
  cases hr : (p s).2.result with
  | error d => rw [(bind_of_error f hr).1, hp s d hr]
  | ok a =>
    rw [(bind_of_ok f hr).2] at h
    exact absurd h (hf a _ e)

theorem quiet_pure (a : α) : Quiet (Pure.pure a : Procedure α) := fun _ => rfl

theorem quiet_look (f : Store → α) : Quiet (look f) := fun _ => rfl

theorem quiet_call (x : Outcome α) : Quiet (call x) := fun _ => rfl

theorem quiet_check (x : Except Fault α) : Quiet (check x) := fun _ => rfl

theorem quiet_takeHooks (given : Hooks) : Quiet (takeHooks given) := by
  intro s
  unfold Procedure.takeHooks
  cases h : s.takeHooks given with
  | error e => rfl
  | ok p => exact takeHooks_eq_ok h

theorem sure_pure (a : α) : Sure (Pure.pure a : Procedure α) := nofun

theorem sure_look (f : Store → α) : Sure (look f) := nofun

theorem sure_write (f : Store → Store) : Sure (write f) := nofun

theorem sure_push (m : Node) : Sure (push m) := nofun

theorem sure_append (owner : NodeId) (j : Join) (payload : NodeId) :
    Sure (append owner j payload) :=
  (sure_look _).bind fun _ => (sure_look _).bind fun _ => (sure_write _).bind fun _ =>
    (sure_write _).bind fun _ => nofun

theorem atomic_newCondition (given : Hooks) : Atomic (newCondition given) :=
  (quiet_takeHooks given).bind_atomic fun _ => (sure_push _).atomic

theorem atomic_newExpression (key operator value : Argument) (given : Hooks) :
    Atomic (newExpression key operator value given) := by
  refine (quiet_check _).bind_atomic fun v => (quiet_takeHooks given).bind_atomic fun h => ?_
  cases h with
  | set identity hooks =>
    exact (quiet_look _).bind_atomic fun _ => (quiet_call _).atomic.bind_sure fun _ => sure_push _
  | none | mapping | other => exact (quiet_pure ()).atomic.bind_sure fun _ => sure_push _

theorem atomic_appendExpression (owner : NodeId) (j : Join) (key operator value : Argument) :
    Atomic (appendExpression owner j key operator value) := by
  refine (quiet_look _).bind_atomic fun given => ?_
  exact (atomic_newExpression key operator value given).bind_sure fun id => sure_append owner j id

theorem atomic_attach (owner : NodeId) (j : Join) (child : NodeId) :
    Atomic (attach owner j child) := by
  refine (quiet_look _).bind_atomic fun cyclic => ?_
  split
  · exact (quiet_call _).atomic
  · exact ((sure_write _).bind fun _ => sure_append owner j child).atomic

theorem atomic_add (owner : NodeId) (j : Join) (a : Arguments) : Atomic (add owner j a) := by
  refine (quiet_look _).bind_atomic fun nested? => ?_
  split
  · split
    · exact (quiet_call _).atomic
    · exact atomic_attach owner j _
  · exact (quiet_look _).bind_atomic fun _ => (quiet_call _).atomic
  · split
    · split
      · exact atomic_appendExpression owner j a.first _ _
      · exact (quiet_look _).bind_atomic fun _ => (quiet_call _).atomic
    · exact (quiet_call _).atomic

theorem atomic_setJoin (id : NodeId) (index join : Value) : Atomic (setJoin id index join) :=
  (quiet_check _).bind_atomic fun _ => (quiet_look _).bind_atomic fun _ =>
    (quiet_check _).bind_atomic fun _ => (sure_write _).atomic

/-! ### Restoring -/

/-- Changes only nodes from `n` on, also where it fails, and what it gives is as `Q` says. -/
def Confined (n : Nat) (p : Procedure α) (Q : α → Prop) : Prop :=
  ∀ s : Store, s.Closed n → (p s).1.Closed n ∧ (∀ i < n, (p s).1.nodes[i]? = s.nodes[i]?) ∧
    ∀ a, (p s).2.result = .ok a → Q a

theorem Confined.bind {p : Procedure α} {f : α → Procedure β} {Q : α → Prop} {R : β → Prop}
    (hp : Confined n p Q) (hf : ∀ a, Q a → Confined n (f a) R) : Confined n (p >>= f) R := by
  intro s hs
  obtain ⟨hclosed, hsame, hgives⟩ := hp s hs
  cases hr : (p s).2.result with
  | error e =>
    obtain ⟨hstore, hresult⟩ := bind_of_error f hr
    rw [hstore, hresult]
    exact ⟨hclosed, hsame, nofun⟩
  | ok a =>
    obtain ⟨hstore, hresult⟩ := bind_of_ok f hr
    obtain ⟨hafter, hkept, hmore⟩ := hf a (hgives a hr) _ hclosed
    rw [hstore, hresult]
    exact ⟨hafter, fun i hi => (hkept i hi).trans (hsame i hi), hmore⟩

theorem Quiet.confined {p : Procedure α} (hp : Quiet p) : Confined n p fun _ => True :=
  fun s hs => ⟨hs.of_nodes_eq (hp s), fun i _ => by rw [hp s], fun _ _ => trivial⟩

theorem confined_pure {a : α} {Q : α → Prop} (h : Q a) : Confined n (Pure.pure a) Q :=
  fun _ hs => ⟨hs, fun _ _ => rfl, fun _ hb => by cases hb; exact h⟩

theorem confined_push {m : Node} (h : ∀ s i, (Store.push s m).1.slots i = s.slots i) :
    Confined n (push m) (n ≤ ·) := by
  intro s hs
  refine ⟨hs.of_slots (h s) ?_, fun i hi => ?_, ?_⟩
  · exact (Nat.le_succ _).trans_eq (size_push ..).symm
  · exact (nodes_push ..).trans (if_neg (hi.trans_le hs.le_size).ne)
  · rintro _ ⟨⟩
    exact hs.le_size

theorem confined_setSlots {owner : NodeId} (ho : n ≤ owner) {f : Store → List Slot}
    (hf : ∀ s : Store, s.Closed n → ∀ slot ∈ f s, n ≤ slot.payload) :
    Confined n (write fun s => s.setSlots owner (f s)) fun _ => True := by
  intro s hs
  refine ⟨hs.setSlots owner (hf s hs), fun i hi => ?_, fun _ _ => trivial⟩
  exact (nodes_setSlots ..).trans (if_neg (hi.trans_le ho).ne')

theorem confined_rebind {child : NodeId} (hc : n ≤ child) (f : Store → Hooks) :
    Confined n (write fun s => s.rebind child (f s)) fun _ => True := by
  intro s hs
  refine ⟨hs.of_slots (slots_rebind s child · _) (size_rebind ..).ge, fun i hi => ?_,
    fun _ _ => trivial⟩
  exact (nodes_rebind ..).trans (if_neg fun h => hi.not_ge (hs.le_of_mem_ids hc h))

theorem confined_append {owner payload : NodeId} (ho : n ≤ owner) (hp : n ≤ payload) (j : Join) :
    Confined n (append owner j payload) fun _ => True := by
  refine (quiet_look _).confined.bind fun _ _ => (quiet_look _).confined.bind fun _ _ => ?_
  refine (confined_setSlots ho fun s hs slot => ?_).bind fun _ _ =>
    (confined_setSlots ho fun s hs slot hslot => ?_).bind fun _ _ => (quiet_call _).confined
  · exact hs.le_payload ho (map_payload_joinLast j _)
  · rcases List.mem_append.mp hslot with h | h
    · exact hs.le_payload ho rfl h
    · rw [List.mem_singleton.mp h]
      exact hp

theorem confined_newCondition (given : Hooks) : Confined n (newCondition given) (n ≤ ·) :=
  (quiet_takeHooks given).confined.bind fun h _ => confined_push (slots_push_branch_nil · h)

theorem confined_newExpression (key operator value : Argument) (given : Hooks) :
    Confined n (newExpression key operator value given) (n ≤ ·) := by
  refine (quiet_check _).confined.bind fun v _ =>
    (quiet_takeHooks given).confined.bind fun h _ => ?_
  have hpush := confined_push (n := n) (slots_push_leaf · h key operator.coerced v)
  cases h with
  | set identity hooks =>
    exact (quiet_look _).confined.bind fun _ _ => (quiet_call _).confined.bind fun _ _ => hpush
  | none | mapping | other => exact (quiet_pure ()).confined.bind fun _ _ => hpush

theorem confined_attach {owner child : NodeId} (ho : n ≤ owner) (hc : n ≤ child) (j : Join) :
    Confined n (attach owner j child) fun _ => True := by
  refine (quiet_look _).confined.bind fun cyclic _ => ?_
  split
  · exact (quiet_call _).confined
  · exact (confined_rebind hc _).bind fun _ _ => confined_append ho hc j

theorem confined_appendExpression {owner : NodeId} (ho : n ≤ owner) (j : Join)
    (key operator value : Argument) :
    Confined n (appendExpression owner j key operator value) fun _ => True := by
  refine (quiet_look _).confined.bind fun given _ => ?_
  exact (confined_newExpression key operator value given).bind fun _ hp => confined_append ho hp j

theorem confined_setJoin {id : NodeId} (hid : n ≤ id) (index join : Value) :
    Confined n (setJoin id index join) fun _ => True := by
  refine (quiet_check _).confined.bind fun j _ => (quiet_look _).confined.bind fun _ _ =>
    (quiet_check _).confined.bind fun i _ => confined_setSlots hid fun s hs slot => ?_
  exact hs.le_payload hid (map_payload_modify _ i j)

theorem confined_keepLastJoin {id : NodeId} (hid : n ≤ id) (records : List Record) :
    Confined n (keepLastJoin id records) fun _ => True := by
  unfold keepLastJoin
  split
  · exact confined_pure trivial
  · exact confined_setJoin hid _ _

mutual

theorem confined_addRecords {owner : NodeId} (ho : n ≤ owner) (hooks : Hooks) :
    ∀ (records : List Record) (previous : Join),
      Confined n (addRecords owner hooks previous records) fun _ => True
  | [], _ => confined_pure trivial
  | r :: rest, previous => (confined_addRecord ho hooks r previous).bind fun _ _ =>
      confined_addRecords ho hooks rest r.join

theorem confined_addRecord {owner : NodeId} (ho : n ≤ owner) (hooks : Hooks) :
    ∀ (record : Record) (previous : Join),
      Confined n (addRecord owner hooks previous record) fun _ => True
  | .expression _ _ _ _, previous => confined_appendExpression ho previous _ _ _
  | .condition _ records, previous => by
    refine (confined_newCondition hooks).bind fun child hchild => ?_
    refine (confined_addRecords hchild hooks records .and).bind fun _ _ => ?_
    exact (confined_keepLastJoin hchild records).bind fun _ _ => confined_attach ho hchild previous

end

theorem confined_replay (hooks : Hooks) (records : List Record) :
    Confined n (replay hooks records) (n ≤ ·) := by
  refine (confined_newCondition hooks).bind fun id hid => ?_
  refine (confined_addRecords hid hooks records .and).bind fun _ _ => ?_
  exact (confined_keepLastJoin hid records).bind fun _ _ => confined_pure hid

theorem confined_restore (encoded : Value) (given : Hooks) (format : Value) :
    Confined n (restore encoded given format) (n ≤ ·) := by
  refine (quiet_call _).confined.bind fun records _ =>
    (quiet_takeHooks given).confined.bind fun hooks _ => ?_
  exact (confined_replay hooks records).bind fun id hid =>
    (quiet_call _).confined.bind fun _ _ => confined_pure hid

/-! ### Calls of a caller -/

/-- A call as it is carried out. It gives the condition that it makes, if it makes one. -/
def perform : Store.Action → Procedure (Option NodeId)
  | .create given => do
    let id ← newCondition given
    return some id
  | .add owner j positional named => do
    let known ← look (·.isBranch owner)
    if known then
      let a ← check (Arguments.ofCall positional named)
      add owner j a
      return none
    else call noMethod
  | .setJoin id index join => do
    let known ← look (·.isBranch id)
    if known then
      setJoin id index join
      return none
    else call noMethod
  | .assignHooks id h => do
    write fun s => s.setHooks id h
    return none
  | .restore encoded given format => do
    let id ← restore encoded given format
    return some id

theorem outcome_perform (a : Store.Action) (s : Store) :
    Prod.fst <$> (perform a).outcome s = s.perform a := by
  cases a with
  | create given =>
    rw [perform, Store.perform, outcome_bind, outcome_newCondition, map_bind]
    rfl
  | add owner j positional named =>
    rw [perform, Store.perform, outcome_bind, outcome_look, pure_bind]
    dsimp only
    split
    · next ho =>
      rw [outcome_bind, outcome_check, bind_map_left, map_bind]
      refine Outcome.bind_congr_of_ok fun a _ => ?_
      rw [outcome_bind, outcome_add ho, bind_map_left, map_bind]
      exact bind_pure _
    · rfl
  | setJoin id index join =>
    rw [perform, Store.perform, outcome_bind, outcome_look, pure_bind]
    dsimp only
    split
    · rw [outcome_bind, outcome_setJoin, bind_map_left, map_bind]
      exact bind_pure _
    · rfl
  | assignHooks id h => rfl
  | restore encoded given format =>
    rw [perform, Store.perform, outcome_bind, outcome_restore, map_bind]
    rfl

theorem atomic_perform {a : Store.Action} (ha : a.isRestore = false) : Atomic (perform a) := by
  cases a with
  | create given =>
    exact (atomic_newCondition given).bind_sure fun _ => sure_pure _
  | add owner j positional named =>
    refine (quiet_look _).bind_atomic fun known => ?_
    split
    · refine (quiet_check _).bind_atomic fun a => ?_
      exact (atomic_add owner j a).bind_sure fun _ => sure_pure _
    · exact (quiet_call _).atomic
  | setJoin id index join =>
    refine (quiet_look _).bind_atomic fun known => ?_
    split
    · exact (atomic_setJoin id index join).bind_sure fun _ => sure_pure _
    · exact (quiet_call _).atomic
  | assignHooks id h => exact ((sure_write _).bind fun _ => sure_pure _).atomic
  | restore encoded given format => cases ha

/-- A call is carried out as the store has it, and where it fails it gives nothing and leaves every
node there was as it was: its slots with their joins and payloads, its hooks, its parts. Only a
restoring that fails leaves nodes behind, and they are new. -/
theorem perform_kept_of_error (a : Store.Action) (s : Store) :
    Prod.fst <$> (perform a).outcome s = s.perform a ∧
    ∀ e, (perform a s).2.result = .error e →
      (∀ i < s.nodes.size, (perform a s).1.nodes[i]? = s.nodes[i]?) ∧
      (a.isRestore = false → (perform a s).1.nodes = s.nodes) := by
  refine ⟨outcome_perform a s, fun e he => ?_⟩
  by_cases ha : a.isRestore = false
  · have hnodes := atomic_perform ha s e he
    exact ⟨fun i _ => by rw [hnodes], fun _ => hnodes⟩
  · refine ⟨?_, fun h => absurd h ha⟩
    cases a with
    | restore encoded given format =>
      have hconfined : Confined s.nodes.size (perform (.restore encoded given format))
          fun _ => True :=
        (confined_restore encoded given format).bind fun _ _ => confined_pure trivial
      exact (hconfined s s.closed_size).2.1
    | create | add | setJoin | assignHooks => exact absurd rfl ha

def refusingNull : HookSet :=
  HookSet.empty.put .validate (some ⟨"refuse_null", fun c =>
    match c.value with
    | .value .null => .fail (.other .value "null")
    | _ => pure .null⟩)

def guarded : Store :=
  run [.create (.set 1 refusingNull),
    .add 0 .and [.value (.text "a"), .value (.text "eq"), .value (.int 1)] []]

/-- An append, and a restoring of three leaves the second of which is turned down. -/
def refused : Store.Action × Store.Action :=
  let leaf (v : Value) : Value := .map [(.text "joinOperator", .text "or"),
    (.text "expression", .map [(.text "key", .text "b"), (.text "operator", .text "eq"),
      (.text "value", v)])]
  (.add 0 .or [.value (.text "b"), .value (.text "eq"), .value .null] [],
    .restore (.list [leaf (.int 1), leaf .null, leaf (.int 2)]) (.set 1 refusingNull) .null)

theorem perform_kept_of_error_refused :
    (∃ e, (perform refused.1 guarded).2.result = .error e) ∧
      (perform refused.1 guarded).1.slots 0 = [⟨.and, 1⟩] ∧
    (∃ e, (perform refused.2 guarded).2.result = .error e) ∧
      (perform refused.2 guarded).1.nodes.size = 4 ∧
      (perform refused.2 guarded).1.slots 0 = [⟨.and, 1⟩] := by
  have hslots : guarded.slots 0 = [⟨.and, 1⟩] := by decide +kernel
  have hsize : guarded.nodes.size = 2 := by decide +kernel
  obtain ⟨e, happend⟩ : ∃ e, (perform refused.1 guarded).2.result = .error e :=
    exists_error_of_isOk (by decide +kernel)
  obtain ⟨f, hrestore⟩ : ∃ e, (perform refused.2 guarded).2.result = .error e :=
    exists_error_of_isOk (by decide +kernel)
  obtain ⟨-, hkept⟩ := perform_kept_of_error refused.1 guarded
  obtain ⟨-, hrestored⟩ := perform_kept_of_error refused.2 guarded
  have hzero : 0 < guarded.nodes.size := by
    rw [hsize]
    exact Nat.zero_lt_two
  refine ⟨⟨e, happend⟩, ?_, ⟨f, hrestore⟩, by decide +kernel, ?_⟩
  · rw [slots_eq_of_nodes_eq ((hkept e happend).1 0 hzero), hslots]
  · rw [slots_eq_of_nodes_eq ((hrestored f hrestore).1 0 hzero), hslots]

end Procedure

end FilterTree
