import FilterTree.Proofs.Outcome
import FilterTree.Proofs.Value.Legible
import FilterTree.Hook.Spec

/-! Faults that are not reported as misconfigurations, and how results that may end in them
compose. -/

namespace FilterTree

/-- A result is astray where it is a fault that is not reported as a misconfiguration. -/
def GoesAstray {α : Type} (x : Except Fault α) : Prop :=
  ∃ f, x = .error f ∧ ∀ m, f ≠ .misconfigured m

namespace GoesAstray
variable {α β : Type}

@[simp] theorem not_ok (a : α) : ¬GoesAstray (.ok a : Except Fault α) :=
  fun ⟨_, h, _⟩ => nomatch h

theorem error_iff {f : Fault} :
    GoesAstray (.error f : Except Fault α) ↔ ∀ m, f ≠ .misconfigured m :=
  ⟨fun ⟨_, h, hm⟩ => Except.error.inj h ▸ hm, fun hm => ⟨f, rfl, hm⟩⟩

@[simp] theorem not_misconfigured (m : Misconfiguration) :
    ¬GoesAstray (.error (.misconfigured m) : Except Fault α) :=
  fun ⟨_, h, hm⟩ => hm m (Except.error.inj h).symm

@[simp] theorem other (k : Kind) (message : String) :
    GoesAstray (.error (.other k message) : Except Fault α) :=
  ⟨_, rfl, nofun⟩

@[simp] theorem longInteger : GoesAstray (.error Fault.longInteger : Except Fault α) :=
  other _ _

theorem written_iff (v : Value) (text : Value → String) (m : String → Misconfiguration) :
    GoesAstray (v.written text >>= fun s => (.error (.misconfigured (m s)) : Except Fault α)) ↔
      v.isLegible = false := by
  cases hlong : v.isLegible with
  | true =>
    rw [Value.written_of_isLegible hlong]
    exact iff_of_false (not_misconfigured _) nofun
  | false =>
    rw [Value.written_of_not_isLegible hlong]
    exact iff_of_true longInteger rfl

theorem bind_iff {x : Except Fault α} {f : α → Except Fault β} :
    GoesAstray (x >>= f) ↔ GoesAstray x ∨ ∃ a, x = .ok a ∧ GoesAstray (f a) := by
  cases x with
  | error e =>
    constructor
    · rintro ⟨g, hg, hm⟩
      cases hg
      exact .inl ⟨e, rfl, hm⟩
    · rintro (⟨g, hg, hm⟩ | ⟨_, h, _⟩)
      · cases hg
        exact ⟨e, rfl, hm⟩
      · cases h
  | ok a =>
    constructor
    · exact fun h => .inr ⟨a, rfl, h⟩
    · rintro (h | ⟨_, h, hf⟩)
      · exact absurd h (not_ok a)
      · cases h
        exact hf

theorem foldlM_iff {f : β → α → Except Fault β} {xs : List α} {b : β} :
    GoesAstray (xs.foldlM f b) ↔
      ∃ before x after c, xs = before ++ x :: after ∧ before.foldlM f b = .ok c ∧
        GoesAstray (f c x) := by
  -- The step that goes astray is the first one, or else one after a first step that succeeds.
  induction xs generalizing b with
  | nil =>
    refine iff_of_false (not_ok b) ?_
    rintro ⟨before, x, after, c, hxs, -⟩
    exact absurd (congrArg List.length hxs) (by simp)
  | cons x xs ih =>
    rw [List.foldlM_cons, bind_iff]
    constructor
    · rintro (h | ⟨d, hd, h⟩)
      · exact ⟨[], x, xs, b, rfl, rfl, h⟩
      · obtain ⟨before, y, after, c, rfl, hc, hy⟩ := ih.mp h
        refine ⟨x :: before, y, after, c, rfl, ?_, hy⟩
        rw [List.foldlM_cons, hd]
        exact hc
    · rintro ⟨before, y, after, c, hxs, hc, hy⟩
      cases before with
      | nil =>
        cases hxs
        cases hc
        exact .inl hy
      | cons z before =>
        cases hxs
        rw [List.foldlM_cons] at hc
        obtain ⟨d, hd, hrest⟩ := except_bind_eq_ok_iff.mp hc
        exact .inr ⟨d, hd, ih.mpr ⟨before, y, after, c, rfl, hrest, hy⟩⟩

theorem not_iff {x : Except Fault α} :
    ¬GoesAstray x ↔ (∃ a, x = .ok a) ∨ ∃ m, x = .error (.misconfigured m) := by
  constructor
  · intro h
    cases x with
    | ok a => exact .inl ⟨a, rfl⟩
    | error f =>
      cases f with
      | misconfigured m => exact .inr ⟨m, rfl⟩
      | _ => exact absurd ⟨_, rfl, nofun⟩ h
  · rintro (⟨a, rfl⟩ | ⟨m, rfl⟩)
    · exact not_ok a
    · exact not_misconfigured m

end GoesAstray

def Settles {α : Type} (x : Except Fault α) : Prop :=
  (∃ a, x = .ok a) ∨ GoesAstray x

namespace Settles
variable {α β : Type}

theorem goesAstray_iff {x : Except Fault α} (h : Settles x) :
    GoesAstray x ↔ ∀ a, x ≠ .ok a := by
  constructor
  · rintro ⟨f, hf, -⟩ a ha
    rw [hf] at ha
    cases ha
  · intro hno
    rcases h with ⟨a, ha⟩ | h
    · exact absurd ha (hno a)
    · exact h

theorem bind {x : Except Fault α} {f : α → Except Fault β} (hx : Settles x)
    (hf : ∀ a, Settles (f a)) : Settles (x >>= f) := by
  rcases hx with ⟨a, rfl⟩ | hx
  · exact hf a
  · exact .inr (GoesAstray.bind_iff.mpr (.inl hx))

theorem mapM {f : α → Except Fault β} (hf : ∀ a, Settles (f a)) (xs : List α) :
    Settles (xs.mapM f) := by
  induction xs with
  | nil => exact .inl ⟨[], rfl⟩
  | cons x xs ih =>
    rw [List.mapM_cons]
    exact (hf x).bind fun b => ih.bind fun bs => .inl ⟨b :: bs, rfl⟩

end Settles

end FilterTree
