import ApiPage.Cli.Run
import ApiPage.Proofs.Yaml.Blank
import Mathlib.Data.List.Basic

/-!
# What a run leaves behind

A run fails, or prints, or writes the one file that it was asked to write. One that fails prints nothing
and leaves the files as they were, but for one case: the output is emptied before it is known whether the text
has bytes, so a text with a surrogate costs what the file held. After a session, runs one after another on the
same files, only outputs are not what they were.
-/

namespace ApiPage.Cli

variable {host : Host} {fs : Files} {args : List String} {r : Request} {o : Outcome} {place : Place}
  {text : Str}

/-! ### One run -/

/-- What a request shows of the files that there are. -/
def Shows (host : Host) (fs : Files) (r : Request) (text : Str) : Prop :=
  ∃ rs input more, readInput host fs r = (rs, .ok input) ∧ show? input r.action = (more, .ok text)

theorem Shows.exists_give (h : Shows host fs r text) :
    ∃ rs, runRequest host fs r = give host fs r rs (endLine text) := by
  obtain ⟨rs, input, more, hread, hshow⟩ := h
  refine ⟨rs ++ more, ?_⟩
  rw [runRequest, hread]
  dsimp only
  rw [hshow]

/-- The place at which a command line asks for its output. -/
def OutputAt (fs : Files) (args : List String) (place : Place) : Prop :=
  ∃ r p, Request.parse args = .ok r ∧ outputPath? r.action = some p ∧ fs.target p = .ok place

/-- A command line has its output cut: the output can be opened at a place, and the text that is shown has no
bytes. -/
def CutAt (host : Host) (fs : Files) (args : List String) (place : Place) : Prop :=
  ∃ r p text reason, Request.parse args = .ok r ∧ outputPath? r.action = some p ∧
    fs.target p = .ok place ∧ Shows host fs r text ∧ Text.encode (endLine text) = .error reason

/-- What the run of a command line may come to. -/
inductive Effect (host : Host) (fs : Files) (args : List String) (o : Outcome) : Prop
  | fails (ending : o.ending ≠ .exit 0) (silent : o.stdout = "") (kept : o.written = none)
  | prints (unasked : ∀ r, Request.parse args = .ok r → outputPath? r.action = none)
      (ending : o.ending = .exit 0) (kept : o.written = none)
  | writes {place : Place} {bytes : List UInt8} (asked : OutputAt fs args place) (ending : o.ending = .exit 0)
      (silent : o.stdout = "") (written : o.written = some (place, bytes))
  | cuts {place : Place} {reason : String} (cut : CutAt host fs args place)
      (ending : o.ending = .crash (.encoding reason)) (silent : o.stdout = "")
      (written : o.written = some (place, []))

theorem ReadFault.ending_ne (command : String) (path : Path) (fault : ReadFault) :
    (fault.ending command path).1 ≠ .exit 0 := by
  unfold ReadFault.ending
  cases fault.crash? with
  | some crash => simp
  | none => simp

/-- The run of a request that shows something, by what becomes of the text. -/
theorem give_effect (h : Request.parse args = .ok r) (hshows : Shows host fs r text) (rs : List Record) :
    Effect host fs args (give host fs r rs (endLine text)) := by
  unfold give
  cases hp : outputPath? r.action with
  | none =>
    cases host.unshowable? (endLine text) with
    | some reason => exact .fails (by simp) rfl rfl
    | none =>
      refine .prints (fun r' hr' => ?_) rfl rfl
      rw [← Except.ok.inj (h.symm.trans hr')]
      exact hp
  | some p =>
    dsimp only
    cases ht : fs.target p with
    | error fault => exact .fails (by simp) rfl rfl
    | ok place =>
      dsimp only
      cases hbytes : Text.encode (endLine text) with
      | error reason => exact .cuts ⟨r, p, text, reason, h, hp, ht, hshows, hbytes⟩ rfl rfl rfl
      | ok bytes => exact .writes ⟨r, p, h, hp, ht⟩ rfl rfl rfl

/-- The run of a request, by the step at which it ends: reading, laying out, or the output. -/
theorem runRequest_effect (h : Request.parse args = .ok r) : Effect host fs args (runRequest host fs r) := by
  rcases hread : readInput host fs r with ⟨rs, fault | input⟩
  · rw [runRequest, hread]
    exact .fails (fault.ending_ne _ _) rfl rfl
  · rcases hshow : show? input r.action with ⟨more, fault | text⟩
    · rw [runRequest, hread]
      dsimp only
      rw [hshow]
      cases fault with
      | select => exact .fails (by simp) rfl rfl
      | page => exact .fails (by simp) rfl rfl
      | blankPath => exact .fails (by simp) rfl rfl
    · have hshows : Shows host fs r text := ⟨rs, input, more, hread, hshow⟩
      obtain ⟨told, hgive⟩ := hshows.exists_give
      rw [hgive]
      exact give_effect h hshows told

theorem run_effect (host : Host) (fs : Files) (args : List String) :
    Effect host fs args (run host fs args) := by
  unfold run
  cases h : Request.parse args with
  | error refusal =>
    cases refusal with
    | help program => exact .prints (fun r hr => absurd (h.symm.trans hr) (by simp)) rfl rfl
    | usage program fault => exact .fails (by simp) rfl rfl
  | ok r => exact runRequest_effect h

/-- A run whose output is cut ends there without a word, and the output is empty. -/
theorem CutAt.run_eq (h : CutAt host fs args place) :
    (∃ reason, (run host fs args).ending = .crash (.encoding reason)) ∧
      (run host fs args).stdout = "" ∧ (run host fs args).written = some (place, []) := by
  obtain ⟨r, p, text, reason, hr, hp, ht, hshows, hbytes⟩ := h
  obtain ⟨rs, hgive⟩ := hshows.exists_give
  have hrun : run host fs args = give host fs r rs (endLine text) := by
    rw [run, hr]
    exact hgive
  have hcut : give host fs r rs (endLine text) =
      { ending := .crash (.encoding reason), stderr := told r rs, written := some (place, []) } := by
    simp only [give, hp, ht, hbytes]
  rw [hrun, hcut]
  exact ⟨⟨reason, rfl⟩, rfl, rfl⟩

/-- There is a file at a place, and nothing differs but what is there. -/
structure ChangedAt (place : Place) (fs gs : Files) : Prop where
  cwd : gs.cwd = fs.cwd
  file : ∃ bytes, gs.at? place = some (.file bytes)
  others : ∀ other, other ≠ place → gs.at? other = fs.at? other

theorem changedAt_put (fs : Files) {p : Path} (h : fs.target p = .ok place) (bytes : List UInt8) :
    ChangedAt place fs (fs.put place (.file bytes)) :=
  ⟨rfl, ⟨bytes, fs.at?_put_self _ (Files.ne_root_of_target h)⟩,
    fun _ hother => fs.at?_put_of_ne _ hother⟩

theorem Effect.of_failed (h : Effect host fs args o) (hf : o.ending ≠ .exit 0)
    (hcut : ¬ ∃ place, CutAt host fs args place) : o.stdout = "" ∧ o.after fs = fs := by
  cases h with
  | fails _ silent kept => exact ⟨silent, by rw [Outcome.after, kept]⟩
  | prints _ ending _ => exact absurd ending hf
  | writes _ ending _ _ => exact absurd ending hf
  | cuts cut _ _ _ => exact absurd ⟨_, cut⟩ hcut

theorem Effect.of_succeeded (h : Effect host fs args o) (hs : o.ending = .exit 0) :
    ((¬ ∃ place, OutputAt fs args place) ∧ o.after fs = fs) ∨
      ∃ place, OutputAt fs args place ∧ ChangedAt place fs (o.after fs) := by
  cases h with
  | fails ending _ _ => exact absurd hs ending
  | prints unasked _ kept =>
    refine .inl ⟨?_, by rw [Outcome.after, kept]⟩
    rintro ⟨place, r, p, hr, hp, -⟩
    exact absurd ((unasked r hr).symm.trans hp) (by simp)
  | @writes place bytes asked _ _ written =>
    obtain ⟨r, p, hr, hp, ht⟩ := asked
    refine .inr ⟨place, ⟨r, p, hr, hp, ht⟩, ?_⟩
    rw [Outcome.after, written]
    exact changedAt_put fs ht bytes
  | cuts _ ending _ _ =>
    rw [ending] at hs
    cases hs

/-- A run whose output is cut fails in silence, empties the output and changes nothing else. -/
theorem CutAt.of_run (h : CutAt host fs args place) :
    (run host fs args).ending ≠ .exit 0 ∧ (run host fs args).stdout = "" ∧
      ((run host fs args).after fs).at? place = some (.file []) ∧
      ChangedAt place fs ((run host fs args).after fs) := by
  obtain ⟨⟨reason, hending⟩, hsilent, hwritten⟩ := h.run_eq
  obtain ⟨r, p, -, -, -, -, ht, -, -⟩ := h
  have hafter : (run host fs args).after fs = fs.put place (.file []) := by rw [Outcome.after, hwritten]
  rw [hafter, hending]
  exact ⟨by simp, hsilent, fs.at?_put_self _ (Files.ne_root_of_target ht), changedAt_put fs ht []⟩

/-! ### Sessions -/

/-- The files after runs, each on the files that the run before it left. -/
def filesAfter (host : Host) (fs : Files) : List (List String) → Files
  | [] => fs
  | args :: runs => filesAfter host ((run host fs args).after fs) runs

theorem filesAfter_append (host : Host) (fs : Files) (runs more : List (List String)) :
    filesAfter host fs (runs ++ more) = filesAfter host (filesAfter host fs runs) more := by
  induction runs generalizing fs with
  | nil => rfl
  | cons args runs ih => exact ih _

/-- **A run that fails leaves no trace, unless its output is cut.** Whatever ran before it, it prints nothing
to the standard output, and it leaves the files as they were. Where the output can be opened and the text has a
surrogate in it, the run fails all the same, and the output is empty; nothing else differs. A run that succeeds
leaves the files as they were if it was asked for no output, and otherwise changes its output alone. -/
theorem run_failed_or_output (host : Host) (fs : Files) (earlier : List (List String)) (args : List String) :
    ((run host (filesAfter host fs earlier) args).ending ≠ .exit 0 →
        (¬ ∃ place, CutAt host (filesAfter host fs earlier) args place) →
          (run host (filesAfter host fs earlier) args).stdout = "" ∧
            filesAfter host fs (earlier ++ [args]) = filesAfter host fs earlier) ∧
      (∀ place, CutAt host (filesAfter host fs earlier) args place →
        (run host (filesAfter host fs earlier) args).ending ≠ .exit 0 ∧
          (run host (filesAfter host fs earlier) args).stdout = "" ∧
            (filesAfter host fs (earlier ++ [args])).at? place = some (.file []) ∧
              ChangedAt place (filesAfter host fs earlier) (filesAfter host fs (earlier ++ [args]))) ∧
      ((run host (filesAfter host fs earlier) args).ending = .exit 0 →
        ((¬ ∃ place, OutputAt (filesAfter host fs earlier) args place) ∧
            filesAfter host fs (earlier ++ [args]) = filesAfter host fs earlier) ∨
          ∃ place, OutputAt (filesAfter host fs earlier) args place ∧
            ChangedAt place (filesAfter host fs earlier) (filesAfter host fs (earlier ++ [args]))) := by
  have heffect := run_effect host (filesAfter host fs earlier) args
  rw [filesAfter_append]
  exact ⟨heffect.of_failed, fun _ hcut => hcut.of_run, heffect.of_succeeded⟩

namespace Cut

/-- A model with a surrogate in its prose, and an older output. -/
def files : Files :=
  ⟨["w"], [(["w"], .directory),
    (["w", "m.json"], .file (Text.encodeUtf8 "\x7b\"kind\": \"property\", \"docs\": \"\\ud800\"\x7d")),
    (["w", "o.md"], .file [0x6F])], []⟩

def commandLine : List String := ["render", "m.json", "--output", "o.md"]

end Cut

open Cut in
/-- A run that fails and leaves its output empty. -/
theorem run_cuts_output : (run (.bare Yaml.reader) files commandLine).ending ≠ .exit 0 ∧
    files.read (Path.ofString "o.md") = .ok [0x6F] ∧
    ((run (.bare Yaml.reader) files commandLine).after files).read (Path.ofString "o.md") = .ok [] :=
  ⟨by decide +kernel, by decide +kernel, by decide +kernel⟩

end ApiPage.Cli
