import FilterTree.Proofs.Outcome
import FilterTree.Proofs.Value.Shape
import FilterTree.Settings.Shared
import Mathlib.Data.List.Induction

/-! Shared settings over any history. A request is answered with what is kept, if anything has been
put in place or found since the settings were last cleared, and else with what is found at that
moment. What is at a place counts only if nothing is at the places before it. -/

namespace FilterTree

/-! ### What discovery depends on -/

/-- Two machines with the same variables and user that show the same in certain places. -/
structure Host.Agree (h h' : Host) (places : Path → Prop) : Prop where
  directory : h'.directory = h.directory
  environment : h'.environment = h.environment
  home : h'.home = h.home
  look : ∀ {p}, places p → h'.look p = h.look p

namespace Host.Agree
variable {h h' : Host} {places : Path → Prop} {p : Path}

theorem lookup?_eq (ha : h.Agree h' places) (name : String) : h'.lookup? name = h.lookup? name := by
  rw [lookup?, lookup?, ha.environment]

theorem exists?_eq (ha : h.Agree h' places) (hp : places p) : h'.exists? p = h.exists? p := by
  rw [exists?, exists?, ha.look hp]

theorem read?_eq (ha : h.Agree h' places) (hp : places p) : h'.read? p = h.read? p := by
  rw [read?, read?, ha.look hp]

end Host.Agree

theorem Host.look_of_exists? {h : Host} {p : Path} (hp : h.exists? p = .ok false) :
    h.look p = .nothing := by
  unfold Host.exists? at hp
  split at hp <;> simp_all

namespace Settings
variable {h h' : Host} {places : Path → Prop} {p : Path}

def namedDirectory (h : Host) : String :=
  (h.lookup? "CONDBUILDER_CONFIG_DIR").getD ""

/-- Discovery reaches a place. The working directory counts if no other is named, and the directory
of the user if in addition nothing is in the working directory. -/
inductive Reaches (h : Host) : Path → Prop
  | named (hnamed : namedDirectory h ≠ "") :
      Reaches h ((Path.ofText (namedDirectory h)).child fileName)
  | here (hunnamed : namedDirectory h = "") : Reaches h (h.directory.child fileName)
  | there {home : Path} (hunnamed : namedDirectory h = "")
      (hnothing : h.look (h.directory.child fileName) = .nothing) (hhome : h.home = .ok home) :
      Reaches h ((home.child ".condbuilder").child fileName)

theorem secret?_no_places (h : Host) (n : Naming) (name : String) :
    secret? h n [] name = .ok none := by
  unfold secret?
  rfl

theorem secretFields_no_paths (h : Host) (n : Naming) :
    secretFields h n [] = { n with delimiter := "" }.fields [] := by
  have hdirectories : [].filterM h.exists? = .ok [] := rfl
  have heach : (["debug", "encoding", "hooks", "config_path"].mapM fun name => do
      return (← secret? h n [] name).map fun s => (Value.text (n.nameOf name), Value.text s)) =
        .ok [none, none, none, none] := by
    simp only [secret?_no_places]
    rfl
  unfold secretFields
  simp only [List.mapM_nil, pure_bind, hdirectories]
  dsimp only [bind, Except.bind] at heach ⊢
  simp only [List.any_nil, Bool.false_eq_true, if_false]
  rw [heach]
  rfl

theorem make_congr (ha : h.Agree h' places) {given : List (Value × Value)}
    (hfiles : pathsOf given "_env_file" = .ok []) (hsecrets : pathsOf given "_secrets_dir" = .ok []) :
    make h' given = make h given := by
  have hassigned (k : Host) : fileVariables k [] = .ok [] := rfl
  unfold make
  rw [hfiles, hsecrets, ha.environment]
  dsimp only [bind, Except.bind]
  simp only [hassigned, secretFields_no_paths]

theorem makeAt_congr (ha : h.Agree h' places) (path : Path) : makeAt h' path [] = makeAt h path [] :=
  make_congr ha (by simp [pathsOf]) (by simp [pathsOf])

theorem load_congr (ha : h.Agree h' places) (hp : places p) : load h' p [] = load h p [] := by
  rw [load, load, makeAt_congr ha, ha.read?_eq hp]

theorem inNamedDirectory_congr {directory : String} (ha : h.Agree h' places)
    (hp : places ((Path.ofText directory).child fileName)) :
    inNamedDirectory h' directory = inNamedDirectory h directory := by
  unfold inNamedDirectory
  dsimp only
  rw [ha.exists?_eq hp, load_congr ha hp, makeAt_congr ha]

theorem nearby_congr (hunnamed : namedDirectory h = "") (ha : h.Agree h' (Reaches h)) :
    nearby h' = nearby h := by
  have hhere : Reaches h (h.directory.child fileName) := .here hunnamed
  unfold nearby
  dsimp only
  rw [ha.directory, ha.exists?_eq hhere, load_congr ha hhere, ha.home]
  refine Outcome.bind_congr_of_ok fun found hfound => ?_
  rw [Outcome.result_ofExcept] at hfound
  cases found with
  | true => simp only [if_true]
  | false =>
    -- only now is there a place for the user, which turns on a variable
    simp only [Bool.false_eq_true, if_false]
    refine Outcome.bind_congr_of_ok fun home hhome => ?_
    rw [Outcome.result_ofExcept] at hhome
    have hthere := Reaches.there hunnamed (Host.look_of_exists? hfound) hhome
    rw [ha.exists?_eq hthere, load_congr ha hthere, make_congr ha rfl rfl]

theorem discover_congr (ha : h.Agree h' (Reaches h)) : discover h' = discover h := by
  unfold discover
  dsimp only
  rw [ha.lookup?_eq]
  by_cases hnamed : namedDirectory h = ""
  · rw [← namedDirectory, hnamed]
    exact nearby_congr hnamed ha
  · have hempty : (namedDirectory h).isEmpty = false := by simpa using hnamed
    rw [← namedDirectory, hempty]
    exact inNamedDirectory_congr ha (.named hnamed)

end Settings

namespace Settings.Shared

/-! ### Histories -/

/-- What can happen while settings are shared. A change is one of the machine, to whatever variables
and files there may be. -/
inductive Step where
  | change (h : Host)
  | get
  | put (n : Numbered)
  | clear

def Step.IsQuiet : Step → Prop
  | .change _ | .get => True
  | .put _ | .clear => False

structure Scene where
  host : Host
  shared : Shared

namespace Scene

def answer (s : Scene) : Outcome Numbered :=
  (·.2) <$> s.shared.get s.host

def next (s : Scene) : Step → Scene
  | .change h => { s with host := h }
  | .get =>
    match (s.shared.get s.host).result with
    | .ok (k, _) => { s with shared := k }
    | .error _ => s
  | .put n => { s with shared := s.shared.put n }
  | .clear => { s with shared := s.shared.clear }

def run (s : Scene) (steps : List Step) : Scene :=
  steps.foldl next s

def Since (first : Scene → Step → Prop) (later : Step → Prop) (s : Scene) (steps : List Step) :
    Prop :=
  ∃ before step after, steps = before ++ step :: after ∧ first (s.run before) step ∧
    ∀ x ∈ after, later x

inductive Gives (s : Scene) : Step → Numbered → Prop
  | put (n : Numbered) : Gives s (.put n) n
  | get {n : Numbered} (h : s.answer.result = .ok n) : Gives s .get n

/-- Settings were given last, nothing having been put in place or cleared since then. -/
def Stored (s : Scene) (steps : List Step) (n : Numbered) : Prop :=
  s.Since (fun t x => t.Gives x n) Step.IsQuiet steps

def GivenSinceCleared (s : Scene) (steps : List Step) : Prop :=
  s.Since (fun t x => ∃ n, t.Gives x n) (· ≠ .clear) steps

variable {s : Scene} {n : Numbered}

theorem run_append (s : Scene) (xs ys : List Step) : s.run (xs ++ ys) = (s.run xs).run ys :=
  List.foldl_append

theorem run_concat (s : Scene) (xs : List Step) (x : Step) : s.run (xs ++ [x]) = (s.run xs).next x :=
  run_append s xs [x]

theorem since_nil {first : Scene → Step → Prop} {later : Step → Prop} :
    ¬ s.Since first later [] := by
  rintro ⟨before, step, after, h, -⟩
  simp at h

theorem since_concat {first : Scene → Step → Prop} {later : Step → Prop} {steps : List Step}
    {x : Step} : s.Since first later (steps ++ [x]) ↔
      first (s.run steps) x ∨ s.Since first later steps ∧ later x := by
  constructor
  · rintro ⟨before, step, after, h, hfirst, hlater⟩
    -- the new step is the one that is looked for, or the last of those after it
    rcases List.eq_nil_or_concat after with rfl | ⟨after, y, rfl⟩
    · obtain ⟨rfl, hx⟩ := List.append_inj' h rfl
      cases hx
      exact .inl hfirst
    · have hsame : steps ++ [x] = (before ++ step :: after) ++ [y] := by simpa using h
      obtain ⟨rfl, hx⟩ := List.append_inj' hsame rfl
      cases hx
      exact .inr ⟨⟨before, step, after, rfl, hfirst, fun z hz => hlater z (by simp [hz])⟩,
        hlater x (by simp)⟩
  · rintro (hfirst | ⟨⟨before, step, after, rfl, hfirst, hlater⟩, hx⟩)
    · exact ⟨steps, x, [], rfl, hfirst, fun _ h => nomatch h⟩
    · refine ⟨before, step, after ++ [x], by simp, hfirst, fun z hz => ?_⟩
      rcases List.mem_append.mp hz with hz | hz
      · exact hlater z hz
      · rwa [List.mem_singleton.mp hz]

/-! ### One step -/

theorem answer_of_kept (hk : s.shared.kept = some n) : s.answer = pure n := by
  rw [answer, get_of_kept s.host hk, map_pure]

theorem get_of_none {k : Shared} (h : Host) (hk : k.kept = none) :
    k.get h = (fun x => (((k.enroll (some x)).1.put ⟨k.next, some x⟩, ⟨k.next, some x⟩) :
      Shared × Numbered)) <$> discover h := by
  rw [get, hk, map_eq_pure_bind]
  rfl

theorem answer_of_none (hk : s.shared.kept = none) :
    s.answer = (fun x => (⟨s.shared.next, some x⟩ : Numbered)) <$> discover s.host := by
  rw [answer, get_of_none s.host hk, Functor.map_map]

theorem next_get_of_kept (hk : s.shared.kept = some n) : s.next .get = s := by
  rw [next, get_of_kept s.host hk]
  rfl

theorem kept_next_get : (s.next .get).shared.kept = some n ↔ s.answer.result = .ok n := by
  cases hk : s.shared.kept with
  | some m => simp [next_get_of_kept hk, answer_of_kept hk, hk]
  | none =>
    rw [answer_of_none hk, next, get_of_none s.host hk, Outcome.result_map, Outcome.result_map]
    cases (discover s.host).result with
    | error e => simp [Except.map, hk]
    | ok x => simp [Except.map, put]

theorem next_get_of_error {e : Fault} (h : s.answer.result = .error e) : s.next .get = s := by
  rw [answer, Outcome.result_map] at h
  rw [next]
  cases hget : (s.shared.get s.host).result with
  | error _ => rfl
  | ok a => simp [hget, Except.map] at h

theorem kept_next {x : Step} : (s.next x).shared.kept = some n ↔
    s.Gives x n ∨ s.shared.kept = some n ∧ x.IsQuiet := by
  cases x with
  | change h =>
    refine ⟨fun hk => .inr ⟨hk, trivial⟩, ?_⟩
    rintro (h | ⟨hk, -⟩)
    · cases h
    · exact hk
  | get =>
    refine kept_next_get.trans ⟨fun h => .inl (.get h), ?_⟩
    rintro (h | ⟨hk, -⟩)
    · cases h with
      | get h => exact h
    · rw [answer_of_kept hk, Outcome.result_pure]
  | put m =>
    constructor
    · rintro ⟨⟩
      exact .inl (.put _)
    · rintro (h | ⟨-, h⟩)
      · cases h
        rfl
      · cases h
  | clear =>
    constructor
    · rintro ⟨⟩
    · rintro (h | ⟨-, h⟩)
      · cases h
      · cases h

/-! ### A whole run -/

theorem stored_concat {steps : List Step} {x : Step} : s.Stored (steps ++ [x]) n ↔
    (s.run steps).Gives x n ∨ s.Stored steps n ∧ x.IsQuiet :=
  since_concat

theorem givenSinceCleared_concat {steps : List Step} {x : Step} :
    s.GivenSinceCleared (steps ++ [x]) ↔
      (∃ n, (s.run steps).Gives x n) ∨ s.GivenSinceCleared steps ∧ x ≠ .clear :=
  since_concat

theorem kept_run (hs : s.shared.kept = none) (steps : List Step) :
    (s.run steps).shared.kept = some n ↔ s.Stored steps n := by
  induction steps using List.reverseRecOn with
  | nil =>
    constructor
    · intro hk
      cases hs.symm.trans hk
    · exact fun h => absurd h since_nil
  | append_singleton steps x ih => rw [run_concat, kept_next, ih, stored_concat]

theorem exists_stored_iff (steps : List Step) :
    (∃ n, s.Stored steps n) ↔ s.GivenSinceCleared steps := by
  induction steps using List.reverseRecOn with
  | nil => exact iff_of_false (fun ⟨_, h⟩ => since_nil h) since_nil
  | append_singleton steps x ih =>
    rw [givenSinceCleared_concat, ← ih]
    constructor
    · rintro ⟨n, h⟩
      rcases stored_concat.mp h with hgives | ⟨hstored, hquiet⟩
      · exact .inl ⟨n, hgives⟩
      · refine .inr ⟨⟨n, hstored⟩, ?_⟩
        rintro rfl
        exact hquiet
    · rintro (⟨n, hgives⟩ | ⟨⟨n, hstored⟩, hclear⟩)
      · exact ⟨n, stored_concat.mpr (.inl hgives)⟩
      · cases x with
        | change h => exact ⟨n, stored_concat.mpr (.inr ⟨hstored, trivial⟩)⟩
        | get => exact ⟨n, stored_concat.mpr (.inr ⟨hstored, trivial⟩)⟩
        | put m => exact ⟨m, stored_concat.mpr (.inl (.put m))⟩
        | clear => exact absurd rfl hclear

theorem answer_run_quiet {quiet : List Step} (ha : s.answer.result = .ok n)
    (hq : ∀ x ∈ quiet, x.IsQuiet) : ((s.next .get).run quiet).answer = pure n := by
  refine answer_of_kept ?_
  induction quiet using List.reverseRecOn with
  | nil => exact kept_next_get.mpr ha
  | append_singleton quiet x ih =>
    rw [run_concat, kept_next]
    exact .inr ⟨ih fun y hy => hq y (by simp [hy]), hq x (by simp)⟩

end Scene

/-- After any history since nothing was shared, a request is answered with what is stored, whatever
the machine is like by then. Settings are stored if they were given after they had been cleared last;
else they are discovered on the machine as it is, and stored unless this fails. Everyone who asks is
given the same ones until they are replaced or cleared. Discovery does not turn on a place that it
does not reach. -/
theorem answer_run (h : Host) (steps : List Step) :
    let start : Scene := ⟨h, empty⟩
    let s := start.run steps
    (start.GivenSinceCleared steps → ∃ n, start.Stored steps n) ∧
      (∀ n, start.Stored steps n → s.answer = pure n ∧ s.next .get = s) ∧
      (¬ start.GivenSinceCleared steps →
        s.answer = (fun x => (⟨s.shared.next, some x⟩ : Numbered)) <$> discover s.host ∧
        (∀ x, (discover s.host).result = .ok x →
          start.Stored (steps ++ [.get]) ⟨s.shared.next, some x⟩) ∧
        ∀ e, (discover s.host).result = .error e →
          s.next .get = s ∧ ¬ start.GivenSinceCleared (steps ++ [.get])) ∧
      (∀ n quiet, s.answer.result = .ok n → (∀ x ∈ quiet, x.IsQuiet) →
        ((s.next .get).run quiet).answer = pure n) ∧
      ∀ h', s.host.Agree h' (Reaches s.host) → discover h' = discover s.host := by
  intro start s
  have hkept (n : Numbered) : s.shared.kept = some n ↔ start.Stored steps n :=
    Scene.kept_run rfl steps
  refine ⟨(Scene.exists_stored_iff steps).mpr, fun n hn => ?_, fun hnone => ?_,
    fun _ _ => Scene.answer_run_quiet, fun _ => discover_congr⟩
  · have hn := (hkept n).mpr hn
    exact ⟨Scene.answer_of_kept hn, Scene.next_get_of_kept hn⟩
  · have hnothing : s.shared.kept = none := by
      refine Option.eq_none_iff_forall_ne_some.mpr fun n hn => hnone ?_
      exact (Scene.exists_stored_iff steps).mp ⟨n, (hkept n).mp hn⟩
    have hanswer := Scene.answer_of_none hnothing
    refine ⟨hanswer, fun x hx => ?_, fun e he => ?_⟩
    · refine Scene.stored_concat.mpr (.inl (.get ?_))
      rw [hanswer, Outcome.result_map, hx]
      rfl
    · have herror : s.answer.result = .error e := by
        rw [hanswer, Outcome.result_map, he]
        rfl
      refine ⟨Scene.next_get_of_error herror, fun hgiven => ?_⟩
      rcases Scene.givenSinceCleared_concat.mp hgiven with ⟨n, hn⟩ | ⟨hgiven, -⟩
      · cases hn with
        | get hn => cases herror.symm.trans hn
      · exact hnone hgiven

/-! ### A history with files in two places -/

def machine (files : List (List String × Option String)) : Host :=
  let directory : Path := ⟨"/", ["work"]⟩
  ⟨directory, [("HOME", "/home/user")], (Files.mk files).look directory, fun _ => none, .own,
    fun _ => true⟩

def fileHere (text : String) : List String × Option String :=
  (["work", fileName], some text)

def fileThere (text : String) : List String × Option String :=
  (["home", "user", ".condbuilder", fileName], some text)

def broken : Host :=
  { machine [] with look := fun _ => .unnameable }

def both : Host :=
  machine [fileHere "condbuilder: {debug: true}", fileThere "condbuilder: {encoding: yaml}"]

def onlyThere : Host :=
  machine [fileThere "condbuilder: {encoding: yaml}"]

theorem agree_both (text : String) :
    both.Agree (machine [fileHere "condbuilder: {debug: true}", fileThere text]) (Reaches both) where
  directory := rfl
  environment := rfl
  home := rfl
  look := by
    rintro p (hnamed | - | ⟨-, hnothing, -⟩)
    · exact absurd (by decide +kernel) hnamed
    · rfl
    · exact absurd hnothing (by decide +kernel)

/-- A failure leaves nothing. Then the file here is found, before the one there. What is put in place
of it counts until it is cleared; from then on the file there does, which is now the only one, and
still does when nothing can be found any more. -/
theorem answer_run_over_files :
    let start : Scene := ⟨broken, empty⟩
    let first : List Step := [.get, .change both, .get]
    let second : List Step := first ++ [.put ⟨7, none⟩]
    let third : List Step := second ++ [.clear] ++ [.change onlyThere]
    start.next .get = start ∧
    (∃ n x, start.Stored first n ∧ (start.run first).answer = pure n ∧ n.settings = some x ∧
      x.debug = true ∧ x.encoding = .json) ∧
    (∀ text, discover (machine [fileHere "condbuilder: {debug: true}", fileThere text]) =
      discover both) ∧
    start.Stored second ⟨7, none⟩ ∧ (start.run second).answer = pure ⟨7, none⟩ ∧
    ¬start.GivenSinceCleared third ∧
    ∃ n x, start.Stored (third ++ [.get]) n ∧ n.settings = some x ∧ x.debug = false ∧
      x.encoding = .yaml ∧
      (((start.run third).next .get).run [.change broken]).answer = pure n := by
  intro start first second third
  obtain ⟨-, hfirst, -⟩ := answer_run broken first
  obtain ⟨-, -, -, -, hagree⟩ := answer_run broken [.get, .change both]
  obtain ⟨-, hsecond, -⟩ := answer_run broken second
  obtain ⟨-, -, hthird, hquiet, -⟩ := answer_run broken third
  obtain ⟨-, -, hnothing, -⟩ := answer_run broken []
  obtain ⟨e, he⟩ : ∃ e, (discover broken).result = .error e :=
    exists_error_of_isOk (by decide +kernel)
  obtain ⟨n, hn, hhere⟩ : ∃ n, (start.run [.get, .change both]).answer.result = .ok n ∧
      n.settings.any (fun x => x.debug && x.encoding = .json) = true :=
    exists_ok_of_any (by decide +kernel)
  obtain ⟨y, hy, hthere⟩ : ∃ y, (discover onlyThere).result = .ok y ∧
      (!y.debug && y.encoding = .yaml) = true :=
    exists_ok_of_any (by decide +kernel)
  obtain ⟨x, hx, hhere⟩ : ∃ x, n.settings = some x ∧ (x.debug && x.encoding = .json) = true := by
    cases h : n.settings with
    | none => simp [h] at hhere
    | some x => exact ⟨x, rfl, by simpa [h] using hhere⟩
  have hstored : start.Stored first n := Scene.stored_concat.mpr (.inl (.get hn))
  have hgiven : start.Stored second ⟨7, none⟩ := Scene.stored_concat.mpr (.inl (.put _))
  have hcleared : ¬start.GivenSinceCleared third := by
    intro hsince
    rcases Scene.givenSinceCleared_concat.mp hsince with ⟨_, h⟩ | ⟨hsince, -⟩
    · cases h
    rcases Scene.givenSinceCleared_concat.mp hsince with ⟨_, h⟩ | ⟨-, hclear⟩
    · cases h
    · exact hclear rfl
  obtain ⟨hanswer, hfound, -⟩ := hthird hcleared
  refine ⟨((hnothing Scene.since_nil).2.2 e he).1, ⟨n, x, hstored, (hfirst n hstored).1, hx, ?_⟩,
    fun text => hagree _ (agree_both text), hgiven, (hsecond _ hgiven).1, hcleared, _, y,
    hfound y hy, rfl, ?_⟩
  · simpa using hhere
  · have hy' : y.debug = false ∧ y.encoding = .yaml := by simpa using hthere
    have hresult : (start.run third).answer.result = .ok ⟨(start.run third).shared.next, some y⟩ := by
      rw [hanswer, Outcome.result_map]
      exact congrArg _ hy
    refine ⟨hy'.1, hy'.2, hquiet _ _ hresult ?_⟩
    intro step hstep
    rw [List.mem_singleton.mp hstep]
    trivial

end Settings.Shared

end FilterTree
