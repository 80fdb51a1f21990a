import ApiPage.Proofs.Page.Rendering

/-!
# Parameters that are looked up by name

A parameter answers to two names: the one that the document gives, and the one that it is shown with, behind the
stars of its kind. `Params.find?` takes the first parameter that answers. A document gives all parameters of a
function different names, but with the stars two of them may answer to one name; then the name of the one is
that of the other behind stars, and the later of the two is hidden.
-/

namespace ApiPage

variable {f : Function} {i : Item} {before after : List Param} {p q : Param} {x : Str}

/-- A function that stands in an item: as the item itself, as the constructor of a type, or in a member. -/
inductive Function.StandsIn (f : Function) : Item → Prop
  | itself : StandsIn f (.function f)
  | constructor {d : Option Docs} {ms : List (Scalar × Item)} {t : Ty} : StandsIn f (.type d (some f) ms t)
  | member {i : Item} {m : Scalar × Item} (mem : m ∈ i.members) (below : StandsIn f m.2) : StandsIn f i

theorem Function.RepresentsConstructor.exists_represents {v : Value}
    (h : RepresentsConstructor v (some f)) : ∃ fs, f.Represents fs := by
  cases h with
  | given h => exact ⟨_, h⟩

/-- At whatever depth it stands, a function that was read was read from a mapping. -/
theorem Function.StandsIn.exists_represents (hf : f.StandsIn i) {loc : Location} {es : Entries}
    (hi : i.Represents loc es) : ∃ fs, f.Represents fs := by
  induction hf generalizing loc es with
  | itself =>
    cases hi with
    | function _ h => exact ⟨es, h⟩
  | constructor =>
    cases hi with
    | type _ _ _ _ hc => exact hc.exists_represents
  | @member i m mem _ ih =>
    obtain ⟨listed, hms, -⟩ := hi.exists_representMembers
    obtain ⟨place, sub, hm⟩ := hms.exists_represents m mem
    exact ih hm

/-! ### Stars -/

/-- How many stars a parameter of a kind is shown with. -/
def ParamKind.stars : ParamKind → ℕ
  | .args => 1
  | .kwargs => 2
  | _ => 0

theorem ParamKind.stars_le (k : ParamKind) : k.stars ≤ 2 := by
  cases k <;> decide

theorem Param.toList_starredName (p : Param) :
    p.starredName.toList = List.replicate p.kind.stars (.char '*') ++ p.name.toList := by
  unfold starredName
  cases p.kind <;> simp [ParamKind.stars]

/-- A name is another one behind one or two stars. -/
def Starred (name other : Str) : Prop :=
  ∃ n, (n = 1 ∨ n = 2) ∧ name.toList = List.replicate n (.char '*') ++ other.toList

theorem Starred.head? {name other : Str} (h : Starred name other) : name.toList.head? = some (.char '*') := by
  obtain ⟨n, rfl | rfl, h⟩ := h <;> simp [h, List.replicate_succ]

/-- Of two names that are one behind at most two stars each, one is the other behind the stars that it has
less. -/
theorem starred_of_append_eq {s t : Str} {m n : ℕ} (hmn : m ≤ n) (hn : n ≤ 2) (hne : s ≠ t)
    (h : List.replicate m (.char '*') ++ s.toList = List.replicate n (.char '*') ++ t.toList) : Starred s t := by
  obtain ⟨k, rfl⟩ := Nat.exists_eq_add_of_le hmn
  rw [List.replicate_add, List.append_assoc, List.append_cancel_left_eq] at h
  have hk : k ≠ 0 := by
    rintro rfl
    exact hne (Str.toList_injective h)
  exact ⟨k, by omega, h⟩

/-! ### Names that parameters answer to -/

namespace Param

/-- A parameter answers to its name, with the stars of its kind or without them. -/
def Answers (p : Param) (x : Str) : Prop :=
  x = p.name ∨ x = p.starredName

instance (p : Param) (x : Str) : Decidable (p.Answers x) :=
  inferInstanceAs (Decidable (_ ∨ _))

/-- A parameter that answers to a name of another one. -/
def Hides (q p : Param) : Prop :=
  q.Answers p.name ∨ q.Answers p.starredName

/-- The names that a parameter answers to have at most two stars in front of its own. -/
theorem Answers.toList_eq (h : p.Answers x) :
    ∃ n ≤ 2, x.toList = List.replicate n (.char '*') ++ p.name.toList := by
  rcases h with rfl | rfl
  · exact ⟨0, by omega, rfl⟩
  · exact ⟨p.kind.stars, p.kind.stars_le, p.toList_starredName⟩

/-- If two parameters answer to one name, the name of one of them is that of the other behind stars. -/
theorem Answers.starred (hp : p.Answers x) (hq : q.Answers x) (hne : p.name ≠ q.name) :
    Starred p.name q.name ∨ Starred q.name p.name := by
  obtain ⟨m, hm, hpx⟩ := hp.toList_eq
  obtain ⟨n, hn, hqx⟩ := hq.toList_eq
  rcases Nat.le_total m n with hmn | hnm
  · exact .inl (starred_of_append_eq hmn hn hne (hpx.symm.trans hqx))
  · exact .inr (starred_of_append_eq hnm hm hne.symm (hqx.symm.trans hpx))

theorem Hides.starred (h : q.Hides p) (hne : p.name ≠ q.name) :
    Starred p.name q.name ∨ Starred q.name p.name := by
  rcases h with h | h
  · exact Answers.starred (.inl rfl) h hne
  · exact Answers.starred (.inr rfl) h hne

end Param

namespace Params

/-- A parameter that is found under both of its names. -/
def Finds (ps : List Param) (p : Param) : Prop :=
  find? ps p.name = some p ∧ find? ps p.starredName = some p

/-- A name gives a parameter that answers to it exactly if nothing before it does. -/
theorem find?_eq_some_iff (hp : p ∉ before) (hx : p.Answers x) :
    find? (before ++ p :: after) x = some p ↔ ∀ q ∈ before, ¬ q.Answers x := by
  show List.find? (fun q => decide (q.Answers x)) (before ++ p :: after) = some p ↔ _
  have hfirst : List.find? (fun q => decide (q.Answers x)) (p :: after) = some p :=
    List.find?_cons_of_pos (by simpa using hx)
  rw [List.find?_append, hfirst]
  cases hbefore : List.find? (fun q => decide (q.Answers x)) before with
  | none => simpa using hbefore
  | some q =>
    have hq : q ∈ before := List.mem_of_find?_eq_some hbefore
    have hqx : q.Answers x := by simpa using List.find?_some hbefore
    -- what answers first is not `p`, which stands behind it only
    refine iff_of_false ?_ fun h => h q hq hqx
    rintro ⟨⟩
    exact hp hq

theorem finds_iff (hp : p ∉ before) :
    Finds (before ++ p :: after) p ↔ ∀ q ∈ before, ¬ q.Hides p := by
  rw [Finds, find?_eq_some_iff hp (.inl rfl), find?_eq_some_iff hp (.inr rfl), ← forall₂_and]
  exact forall₂_congr fun q _ => not_or.symm

/-- **Which parameters can be looked up.** A parameter of a function that was read, at whatever depth the function
stands, is found under both of its names unless one before it answers to one of them. One of two such parameters
has the name of the other behind one or two stars; so where no name itself begins with a star, every parameter
is found. -/
theorem finds_of_readItem {loc : Location} {es : Entries} (h : readItem loc es = .ok i) (hf : f.StandsIn i) :
    (∀ before p after, f.params = before ++ p :: after →
      (Finds f.params p ↔ ∀ q ∈ before, ¬ q.Hides p)) ∧
    (∀ p ∈ f.params, ∀ q ∈ f.params, p ≠ q → q.Hides p → Starred p.name q.name ∨ Starred q.name p.name) ∧
    ((∀ p ∈ f.params, p.name.toList.head? ≠ some (.char '*')) → ∀ p ∈ f.params, Finds f.params p) := by
  obtain ⟨fs, hrep⟩ := hf.exists_represents (readItem_represents h)
  have hnodup := hrep.distinct
  -- the names differ, so no parameter stands in the list twice
  have hsplit : ∀ {before p after}, f.params = before ++ p :: after → p ∉ before := by
    intro before p after hps hp
    rw [hps, List.map_append, List.map_cons] at hnodup
    exact List.disjoint_of_nodup_append hnodup (List.mem_map_of_mem hp) (List.mem_cons_self ..)
  have hstarred : ∀ p ∈ f.params, ∀ q ∈ f.params, p ≠ q → q.Hides p →
      Starred p.name q.name ∨ Starred q.name p.name := by
    intro p hp q hq hne hhides
    exact hhides.starred fun hname => hne (List.inj_on_of_nodup_map hnodup hp hq hname)
  refine ⟨fun before p after hps => ?_, hstarred, fun hplain p hp => ?_⟩
  · rw [hps]
    exact finds_iff (hsplit hps)
  · obtain ⟨before, after, hps⟩ := List.append_of_mem hp
    rw [hps]
    refine (finds_iff (hsplit hps)).mpr fun q hq hhides => ?_
    have hqmem : q ∈ f.params := by simp [hps, hq]
    have hne : p ≠ q := by
      rintro rfl
      exact hsplit hps hq
    rcases hstarred p hp q hqmem hne hhides with hs | hs
    · exact hplain p hp hs.head?
    · exact hplain q hqmem hs.head?

namespace Starring

def first : Param := { name := "a", kind := .args }

def options : Param := { name := "b", kind := .kwargs }

def builder : Function := { params := [first, options] }

/-- A module of a type with a constructor that takes all further positions and all further names. -/
def doc : Entries :=
  [(.text "kind", .text "module"), (.text "members", .map [(.text "Box", .map
    [(.text "kind", .text "type"), (.text "constructor", .map [(.text "params", .list
      [.map [(.text "name", .text "a"), (.text "kind", .text "args")],
        .map [(.text "name", .text "b"), (.text "kind", .text "kwargs")]])])])])]

def item : Item := .module none [(.text "Box", .type none (some builder) [] (Ty.named "Box"))]

end Starring

open Starring in
/-- Parameters of a constructor, each found as it is shown. -/
theorem finds_of_readItem_constructor : readItem {} doc = .ok item ∧ builder.StandsIn item ∧
    find? builder.params "*a" = some first ∧ find? builder.params "**b" = some options := by
  have hread : readItem {} doc = .ok item := rfl
  have hstands : builder.StandsIn item := .member (List.mem_singleton.mpr rfl) .constructor
  have hfinds := (finds_of_readItem hread hstands).2.2 (by decide)
  exact ⟨hread, hstands, (hfinds first (by simp [builder])).2, (hfinds options (by simp [builder])).2⟩

namespace Hidden

/-- A parameter that takes all further positions, and one whose name begins with a star. -/
def doc : Entries :=
  [(.text "kind", .text "function"), (.text "params", .list
    [.map [(.text "name", .text "a"), (.text "kind", .text "args")],
      .map [(.text "name", .text "*a")]])]

def first : Param := { name := "a", kind := .args }

def second : Param := { name := "*a" }

end Hidden

open Hidden in
/-- A parameter that is not found under its name, which one before it is shown with. -/
theorem not_finds_hidden : readItem {} doc = .ok (.function { params := [first, second] }) ∧
    find? [first, second] second.name = some first ∧ ¬ Finds [first, second] second := by
  refine ⟨rfl, by decide, fun h => ?_⟩
  exact absurd h.1 (by decide)

end Params

end ApiPage
