import ApiPage.Proofs.Cli.Gathering

/-!
# Verbosity before and behind the command

The options on verbosity belong to the whole program and to each command. Before the command the program
reads one, right behind it the command does, and a request is verbose or quiet if it was said in either
place. So a request comes to the same in both places, and it is refused for the same fault.
-/

namespace ApiPage

namespace Cli

variable {s : Switch} {word : String}

/-- A word for an option on verbosity. -/
structure Verbosity (s : Switch) (word : String) : Prop where
  switch : s = .verbose ∨ s = .quiet
  name : word ∈ s.names

/-- A request that has an option on verbosity as well. -/
def Request.withFlag (s : Switch) (r : Request) : Request :=
  { r with verbose := r.verbose || s = .verbose, quiet := r.quiet || s = .quiet }

/-! ### The word in the two places -/

theorem Verbosity.ne_terminator (h : Verbosity s word) : word ≠ "--" := by
  rintro rfl
  exact absurd h.name (by rcases h.switch with rfl | rfl <;> decide)

/-- To the program and to each command the word is the same option, with nothing joined to it. -/
theorem Verbosity.classify (h : Verbosity s word) {switches : List Switch}
    (hs : switches = outerSwitches ∨ ∃ c : Command, switches = c.switches) :
    classify switches word = .ok (.option word (some ⟨s, word, none⟩)) := by
  obtain ⟨hswitch, hname⟩ := h
  rcases hswitch with rfl | rfl <;>
    simp only [Switch.names, List.mem_cons, List.not_mem_nil, or_false] at hname <;>
    rcases hname with rfl | rfl <;> rcases hs with rfl | ⟨_ | _, rfl⟩ <;> rfl

theorem Verbosity.readOption (h : Verbosity s word) (switches : List Switch) (ws : List Word) :
    readOption switches {} ⟨s, word, none⟩ ws = .ok (Gathered.above {} [(s, .blank)], ws) := by
  rcases h.switch with rfl | rfl <;> rfl

/-- Before the command the word leads to the option alone. -/
theorem Verbosity.leads (h : Verbosity s word) :
    Leads {} [word] (Gathered.above {} [(s, .blank)]) :=
  .set h.ne_terminator (h.classify (.inl rfl)) (h.readOption outerSwitches) (.nil _)

/-- Right behind the command the option comes below all that the command reads. -/
theorem Verbosity.readCommand (h : Verbosity s word) (c : Command) (rest : List String) :
    readCommand c (word :: rest) = (readCommand c rest).map (·.above [(s, .blank)]) :=
  readCommand_cons _ h.ne_terminator (h.classify (.inr ⟨c, rfl⟩)) (h.readOption c.switches) rest

/-! ### The request -/

/-- A request has an option that the command was given. -/
theorem Verbosity.request_inner (h : Verbosity s word) (c : Command) (g : Gathered) :
    request c {} (g.above [(s, .blank)]) = (request c {} g).withFlag s := by
  have hne : ∀ t : Switch, t.takesValue = true → t ≠ s := by
    rintro t ht rfl
    rcases h.switch with rfl | rfl <;> cases ht
  have hmember := g.value?_above (hne .member rfl) .blank
  have hconfig := g.text?_above (hne .config rfl) .blank
  have houtput := g.text?_above (hne .output rfl) .blank
  unfold request Request.withFlag
  simp only [Gathered.has_above, hmember, hconfig, houtput, Bool.or_assoc]
  rfl

/-- A request has an option that was given before the command. -/
theorem request_outer (s : Switch) (c : Command) (g : Gathered) :
    request c (Gathered.above {} [(s, .blank)]) g = (request c {} g).withFlag s := by
  have hnone (t : Switch) : Gathered.has {} t = false := rfl
  unfold request Request.withFlag
  simp only [Gathered.has_above, hnone, Bool.false_or, Bool.or_comm]

/-- What a command comes to has an option that was given before it. -/
theorem finish_outer (s : Switch) (c : Command) (read : Except Refusal Gathered) :
    finish c (Gathered.above {} [(s, .blank)]) read = (finish c {} read).map (·.withFlag s) := by
  cases read with
  | error refusal => rfl
  | ok inner =>
    have hextras : (Gathered.above {} [(s, .blank)]).extras = ({} : Gathered).extras := rfl
    rw [finish, finish, hextras, request_outer]
    split <;> rfl

/-- What a command comes to has an option that it was given itself. -/
theorem Verbosity.finish_inner (h : Verbosity s word) (c : Command) (read : Except Refusal Gathered) :
    finish c {} (read.map (·.above [(s, .blank)])) = (finish c {} read).map (·.withFlag s) := by
  cases read with
  | error refusal => rfl
  | ok inner =>
    have hextras : (inner.above [(s, .blank)]).extras = inner.extras := rfl
    rw [Except.map, finish, finish, hextras, h.request_inner]
    split <;> rfl

/-- **An option on verbosity means the same before and right behind the command.** In both places it adds
itself to the request that the other words make, and leaves a refusal of them as it is; so the program ends
in the same way, prints the same and leaves the same files. -/
theorem run_verbosity_moved (h : Verbosity s word) (c : Command) (rest : List String) :
    Request.parse (word :: c.word :: rest) = (Request.parse (c.word :: rest)).map (·.withFlag s) ∧
      Request.parse (c.word :: word :: rest) = (Request.parse (c.word :: rest)).map (·.withFlag s) ∧
      ∀ host fs, run host fs (word :: c.word :: rest) = run host fs (c.word :: word :: rest) := by
  have hparse : Request.parse (word :: c.word :: rest) =
        (Request.parse (c.word :: rest)).map (·.withFlag s) ∧
      Request.parse (c.word :: word :: rest) =
        (Request.parse (c.word :: rest)).map (·.withFlag s) := by
    have hword := h.classify (.inl rfl)
    cases hrest : words outerSwitches rest with
    | error fault =>
      have hbehind : words outerSwitches (word :: rest) = .error fault :=
        words_cons_of_error h.ne_terminator hword hrest
      have hplain := parse_of_leads_error c (.nil {}) hrest
      rw [List.nil_append] at hplain
      rw [hplain]
      exact ⟨parse_of_leads_error c h.leads hrest, parse_of_leads_error c (.nil {}) hbehind⟩
    | ok more =>
      have hbehind := words_cons_eq_ok.mpr (.inr ⟨h.ne_terminator, _, _, hword, hrest, rfl⟩)
      have hplain := parse_of_leads c (.nil {}) hrest
      rw [List.nil_append] at hplain
      rw [hplain]
      constructor
      · rw [← finish_outer]
        exact parse_of_leads c h.leads hrest
      · rw [← h.finish_inner, ← h.readCommand]
        exact parse_of_leads c (.nil {}) hbehind
  refine ⟨hparse.1, hparse.2, fun host fs => ?_⟩
  rw [run, run, hparse.1, hparse.2]

/-- An option that is said three times, once before the command, and a terminator behind it. -/
theorem run_verbosity_moved_repeated : Verbosity .quiet "--quiet" ∧
    (∀ host fs, run host fs ["--quiet", "render", "m.yml", "-qv", "--", "-q"] =
      run host fs ["render", "--quiet", "m.yml", "-qv", "--", "-q"]) ∧
    Request.parse ["--quiet", "render", "-vo", "f", "--", "-q"] =
      .ok ⟨true, true, "-q", none, .render none (some "f")⟩ := by
  have h : Verbosity .quiet "--quiet" := ⟨.inr rfl, by decide⟩
  obtain ⟨-, -, hrun⟩ := run_verbosity_moved h .render ["m.yml", "-qv", "--", "-q"]
  obtain ⟨hparse, -, -⟩ := run_verbosity_moved h .render ["-vo", "f", "--", "-q"]
  refine ⟨h, hrun, hparse.trans ?_⟩
  rfl

end Cli

end ApiPage
