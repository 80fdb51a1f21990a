import ApiPage.Proofs.Cli.Effects
import ApiPage.Proofs.Cli.Gathering
import ApiPage.Proofs.Yaml.Blank

/-!
# Output into a file

The command `render` prints what it shows, or writes it to a file if it is given an output. Whether it has
anything to show does not depend on the output, and everything is read before the file is written, so the
file holds what is printed otherwise, even if it is one of those that were read.
-/

namespace ApiPage

/-! ### Files that can be written -/

namespace Files

variable {fs : Files} {p : Path} {place : Place}

theorem walk_nil_eq_ok {start : Place} {node : FileNode} :
    fs.walk start [] = .ok (place, node) ↔
      start = place ∧ fs.at? start = some node ∧ node.isHidden = false := by
  rw [walk]
  cases fs.at? start with
  | none => simp
  | some found =>
    constructor
    · intro h
      cases found <;> cases h <;> exact ⟨rfl, rfl, rfl⟩
    · rintro ⟨rfl, hfound, hseen⟩
      obtain rfl := Option.some.inj hfound
      cases found with
      | hidden reason => cases hseen
      | _ => rfl

/-- Only a directory leads on. -/
theorem walk_cons_eq_ok {start : Place} {part : String} {parts : List String} {found : Place × FileNode} :
    fs.walk start (part :: parts) = .ok found ↔
      fs.at? start = some .directory ∧ fs.walk (Path.stepFrom start part) parts = .ok found := by
  rw [walk]
  cases fs.at? start with
  | none => simp
  | some node => cases node <;> simp

/-- One part more leads on from the directory that the others lead to. -/
theorem walk_append_eq_ok {start : Place} {parts : List String} {part : String} {node : FileNode} :
    fs.walk start (parts ++ [part]) = .ok (place, node) ↔ ∃ dir,
      fs.walk start parts = .ok (dir, .directory) ∧ Path.stepFrom dir part = place ∧
        fs.at? place = some node ∧ node.isHidden = false := by
  induction parts generalizing start with
  | nil =>
    rw [List.nil_append, walk_cons_eq_ok, walk_nil_eq_ok]
    constructor
    · rintro ⟨hstart, rfl, hnode⟩
      exact ⟨start, walk_nil_eq_ok.mpr ⟨rfl, hstart, rfl⟩, rfl, hnode⟩
    · rintro ⟨dir, hdir, rfl, hnode⟩
      obtain ⟨rfl, hstart, -⟩ := walk_nil_eq_ok.mp hdir
      exact ⟨hstart, rfl, hnode⟩
  | cons first parts ih =>
    rw [List.cons_append, walk_cons_eq_ok, ih]
    simp only [walk_cons_eq_ok, and_assoc, exists_and_left]

theorem hasDirectory_eq_true : fs.hasDirectory p = true ↔
    ∃ dir, fs.walk (p.origin fs.cwd) p.parts = .ok (dir, .directory) := by
  unfold hasDirectory find
  cases fs.walk (p.origin fs.cwd) p.parts with
  | error fault => simp
  | ok found =>
    obtain ⟨place, node⟩ := found
    cases node <;> simp

/-- A file is written in a directory, and where nothing bars it. -/
theorem target_eq_ok_of_parts {parts : List String} {name : String} (hp : p.parts = parts ++ [name]) :
    fs.target p = .ok place ↔ ∃ dir, fs.walk (p.origin fs.cwd) parts = .ok (dir, .directory) ∧
      Path.stepFrom dir name = place ∧ fs.bar? place = none := by
  have hlast : p.parts.getLast? = some name := by simp [hp]
  have hfront : p.parts.dropLast = parts := by simp [hp]
  rw [target, hlast, hfront]
  dsimp only
  cases fs.walk (p.origin fs.cwd) parts with
  | error fault => simp
  | ok found =>
    obtain ⟨dir, node⟩ := found
    cases node with
    | directory =>
      dsimp only
      split
      · next fault hbar =>
        refine ⟨fun h => absurd h (by simp), ?_⟩
        rintro ⟨dir', hdir', rfl, hfree⟩
        cases hdir'
        exact absurd (hbar.symm.trans hfree) (by simp)
      · next hfree =>
        constructor
        · intro h
          obtain rfl := Except.ok.inj h
          exact ⟨dir, rfl, rfl, hfree⟩
        · rintro ⟨dir', hdir', rfl, -⟩
          cases hdir'
          rfl
    | _ => simp

theorem target_eq_error {parts : List String} {name : String} {dir : Place} {fault : FileFault}
    (hp : p.parts = parts ++ [name]) (hwalk : fs.walk (p.origin fs.cwd) parts = .ok (dir, .directory))
    (hbar : fs.bar? (Path.stepFrom dir name) = some fault) : fs.target p = .error fault := by
  have hlast : p.parts.getLast? = some name := by simp [hp]
  have hfront : p.parts.dropLast = parts := by simp [hp]
  rw [target, hlast, hfront]
  simp only [hwalk, hbar]

/-- The path of a file that can be written has a last part, its name. -/
theorem target_eq_ok : fs.target p = .ok place ↔ ∃ parts name dir, p.parts = parts ++ [name] ∧
    fs.walk (p.origin fs.cwd) parts = .ok (dir, .directory) ∧ Path.stepFrom dir name = place ∧
      fs.bar? place = none := by
  constructor
  · intro h
    rcases List.eq_nil_or_concat p.parts with hp | ⟨parts, name, hp⟩
    · rw [target, hp] at h
      cases h
    · rw [List.concat_eq_append] at hp
      obtain ⟨dir, hdir⟩ := (target_eq_ok_of_parts hp).mp h
      exact ⟨parts, name, dir, hp, hdir⟩
  · rintro ⟨parts, name, dir, hp, hdir⟩
    exact (target_eq_ok_of_parts hp).mpr ⟨dir, hdir⟩

/-- A place is barred by a directory, or the system refuses it. -/
theorem bar?_cases (fs : Files) (place : Place) : fs.bar? place = none ∨ fs.at? place = some .directory ∨
    ∃ reason, fs.bar? place = some (.refused reason) := by
  unfold bar?
  split
  · next h => exact .inr (.inl h)
  · exact .inr (.inr ⟨_, rfl⟩)
  · exact .inr (.inr ⟨_, rfl⟩)
  · cases fs.barred.lookup place with
    | none => exact .inl rfl
    | some reason => exact .inr (.inr ⟨reason, rfl⟩)

/-- A file can be written just if its directory is there, it is no directory itself, and the system does not
refuse it. -/
theorem exists_target_iff : (∃ place, fs.target p = .ok place) ↔
    fs.hasDirectory p.parent = true ∧ fs.hasDirectory p = false ∧
      ∀ reason, fs.target p ≠ .error (.refused reason) := by
  have hwhole : ∀ parts name dir, p.parts = parts ++ [name] →
      fs.walk (p.origin fs.cwd) parts = .ok (dir, .directory) →
        (fs.hasDirectory p = true ↔ fs.at? (Path.stepFrom dir name) = some .directory) := by
    intro parts name dir hp hwalk
    simp [hasDirectory_eq_true, hp, walk_append_eq_ok, hwalk, FileNode.isHidden]
  have horigin : p.parent.origin fs.cwd = p.origin fs.cwd := rfl
  rw [← Bool.not_eq_true]
  constructor
  · rintro ⟨place, h⟩
    obtain ⟨parts, name, dir, hp, hwalk, rfl, hfree⟩ := target_eq_ok.mp h
    rw [hwhole parts name dir hp hwalk]
    refine ⟨hasDirectory_eq_true.mpr ⟨dir, ?_⟩, at?_ne_directory_of_bar? hfree, by simp [h]⟩
    rw [horigin, Path.parent, hp, List.dropLast_concat]
    exact hwalk
  · rintro ⟨hparent, hself, hrefused⟩
    obtain ⟨dir, hwalk⟩ := hasDirectory_eq_true.mp hparent
    rw [horigin, Path.parent] at hwalk
    rcases List.eq_nil_or_concat p.parts with hp | ⟨parts, name, hp⟩
    · -- the path of the working directory or the root is its own parent
      rw [hp] at hwalk
      exact absurd (hasDirectory_eq_true.mpr ⟨dir, by rw [hp]; exact hwalk⟩) hself
    · rw [List.concat_eq_append] at hp
      have hwalk' : fs.walk (p.origin fs.cwd) parts = .ok (dir, .directory) := by
        simpa [hp] using hwalk
      rw [hwhole parts name dir hp hwalk'] at hself
      rcases bar?_cases fs (Path.stepFrom dir name) with hfree | hdir | ⟨reason, hbar⟩
      · exact ⟨_, target_eq_ok.mpr ⟨parts, name, dir, hp, hwalk', rfl, hfree⟩⟩
      · exact absurd hdir hself
      · exact absurd (target_eq_error hp hwalk' hbar) (hrefused reason)

/-- Setting a file moves no directory. -/
theorem walk_put {start dir : Place} {parts : List String} {node : FileNode}
    (h : fs.walk start parts = .ok (dir, .directory)) (hplace : fs.at? place ≠ some .directory) :
    (fs.put place node).walk start parts = .ok (dir, .directory) := by
  have hkept : ∀ other, fs.at? other = some .directory →
      (fs.put place node).at? other = some .directory := by
    intro other hother
    have hne : other ≠ place := by
      rintro rfl
      exact hplace hother
    rw [at?_put_of_ne fs node hne, hother]
  induction parts generalizing start with
  | nil =>
    obtain ⟨rfl, hstart, -⟩ := walk_nil_eq_ok.mp h
    exact walk_nil_eq_ok.mpr ⟨rfl, hkept _ hstart, rfl⟩
  | cons part parts ih =>
    obtain ⟨hstart, hrest⟩ := walk_cons_eq_ok.mp h
    exact walk_cons_eq_ok.mpr ⟨hkept _ hstart, ih hrest⟩

/-- What was written is read. -/
theorem read_put_of_target (h : fs.target p = .ok place) (bytes : List UInt8) :
    (fs.put place (.file bytes)).read p = .ok bytes := by
  have hroot := ne_root_of_target h
  obtain ⟨parts, name, dir, hp, hwalk, rfl, hfree⟩ := target_eq_ok.mp h
  have hnot := at?_ne_directory_of_bar? hfree
  have hfound : (fs.put (Path.stepFrom dir name) (.file bytes)).walk (p.origin fs.cwd) (parts ++ [name]) =
      .ok (Path.stepFrom dir name, .file bytes) :=
    walk_append_eq_ok.mpr ⟨dir, walk_put hwalk hnot, rfl, at?_put_self fs _ hroot, rfl⟩
  rw [read, find, cwd_put, hp, hfound]
  rfl

end Files

namespace Cli

/-! ### An output behind the command -/

/-- The word that gives an output. -/
def outputWord (file : String) : String :=
  "--output=" ++ file

theorem toList_outputWord (file : String) :
    (outputWord file).toList = '-' :: '-' :: ("output".toList ++ '=' :: file.toList) := by
  simp [outputWord]

theorem outputWord_ne (file : String) : outputWord file ≠ "--" := by
  intro h
  have hchars := congrArg String.toList h
  rw [toList_outputWord] at hchars
  simp at hchars

theorem cutAtEquals_outputWord (file : String) :
    cutAtEquals (outputWord file).toList = ("--output".toList, some file.toList) := by
  rw [toList_outputWord]
  rfl

/-- No option has an equals sign in its name. -/
theorem switchNamed?_outputWord {switches : List Switch}
    (h : ∀ e ∈ namesOf switches, '=' ∉ e.1.toList) (file : String) :
    switchNamed? switches (String.ofList (outputWord file).toList) = none := by
  rw [String.ofList_toList]
  refine Option.eq_none_iff_forall_ne_some.mpr fun s hs => ?_
  obtain ⟨before, after, hnames, -⟩ := List.lookup_eq_some_iff.mp hs
  have hmem : (outputWord file, s) ∈ namesOf switches := by simp [hnames]
  refine h _ hmem ?_
  rw [toList_outputWord]
  simp

/-- To the whole program, an output is no option of its own. -/
theorem exists_classify_outputWord (file : String) :
    ∃ word, classify outerSwitches (outputWord file) = .ok word := by
  have hspelled : spelled? outerSwitches (outputWord file).toList = none := by
    rw [spelled?, switchNamed?_outputWord (by decide), cutAtEquals_outputWord]
    rfl
  have hcandidates : candidates outerSwitches (outputWord file).toList = [] := by
    have hcut := cutAtEquals_outputWord file
    rw [toList_outputWord] at hcut ⊢
    rw [candidates, hcut]
    rfl
  rw [toList_outputWord] at hspelled hcandidates
  unfold classify
  rw [toList_outputWord]
  dsimp only
  rw [hspelled, hcandidates]
  simp only [List.isEmpty_cons, Bool.false_eq_true, if_false]
  split
  · exact ⟨_, rfl⟩
  · exact ⟨_, rfl⟩

theorem classify_outputWord (file : String) : classify Command.render.switches (outputWord file) =
    .ok (.option (outputWord file) (some ⟨.output, "--output", some file.toList⟩)) := by
  have hspelled : spelled? Command.render.switches (outputWord file).toList =
      some ⟨.output, "--output", some file.toList⟩ := by
    rw [spelled?, switchNamed?_outputWord (by decide), cutAtEquals_outputWord]
    rfl
  rw [toList_outputWord] at hspelled
  unfold classify
  rw [toList_outputWord]
  dsimp only
  rw [hspelled]
  rfl

/-- A command reads the words behind an output as it does without it. -/
theorem readCommand_outputWord {file : String} {rest : List String} {inner : Gathered}
    (hfile : file ≠ "--") (h : readCommand .render rest = .ok inner) :
    readCommand .render (outputWord file :: rest) = .ok (inner.above [(.output, .text file)]) := by
  have hread : ∀ ws, readOption Command.render.switches {} ⟨.output, "--output", some file.toList⟩ ws =
      .ok (Gathered.above {} [(.output, .text file)], ws) := by
    intro ws
    have hvalue : Operand.ofWord (String.ofList file.toList) = .text file := by
      rw [String.ofList_toList, Operand.ofWord, if_neg hfile]
    rw [← hvalue]
    rfl
  rw [readCommand_cons _ (outputWord_ne file) (classify_outputWord file) hread, h]
  rfl

/-- An action with its output in a file. -/
def Action.withOutput (file : String) : Action → Action
  | .render member _ => .render member (some file)
  | .param path name => .param path name

/-- A request with its output in a file. -/
def Request.withOutput (r : Request) (file : String) : Request :=
  { r with action := r.action.withOutput file }

/-- The words behind a command give it no output. -/
def GivesNoOutput (rest : List String) : Prop :=
  ∀ inner, readCommand .render rest = .ok inner → inner.has .output = false

theorem request_above_output {outer inner : Gathered} {file : String}
    (h : inner.has .output = false) :
    request .render outer (inner.above [(.output, .text file)]) =
      (request .render outer inner).withOutput file := by
  have hnone : inner.value? .output = none := by
    rw [Gathered.value?, List.lookup_eq_none_iff]
    intro e he
    have hne : e.1 ≠ .output := by simpa using List.any_eq_false.mp h e he
    exact bne_iff_ne.mpr (Ne.symm hne)
  have houtput : (inner.above [(.output, .text file)]).text? .output = some file := by
    have hvalue : inner.settings.lookup .output = none := hnone
    simp only [Gathered.text?, Gathered.value?, Gathered.above, List.lookup_append, hvalue,
      Option.none_or, List.lookup_cons, beq_self_eq_true]
    rfl
  have hconfig := inner.text?_above (s := .output) (t := .config) (by decide) (.text file)
  have hmember := inner.value?_above (s := .output) (t := .member) (by decide) (.text file)
  unfold request Request.withOutput
  simp only [Gathered.has_above, hconfig, hmember, houtput, reduceCtorEq, decide_false, Bool.or_false]
  rfl

/-- An output can be given right behind the command of a command line that gives none. -/
theorem exists_parse_withOutput {args : List String} {r : Request} (h : Request.parse args = .ok r)
    (hrender : commandOf r.action = .render) : ∃ before rest, args = before ++ "render" :: rest ∧
      ∀ file, file ≠ "--" → GivesNoOutput rest →
        Request.parse (before ++ "render" :: outputWord file :: rest) = .ok (r.withOutput file) := by
  obtain ⟨before, c, rest, outer, more, rfl, hleads, hmore⟩ := exists_leads_of_parse h
  rw [parse_of_leads c hleads hmore] at h
  cases hinner : readCommand c rest with
  | error refusal =>
    rw [hinner] at h
    cases h
  | ok inner =>
    rw [hinner, finish] at h
    split at h
    · next hextras =>
      obtain rfl := Except.ok.inj h
      cases c with
      | param => cases hrender
      | render =>
        refine ⟨before, rest, rfl, fun file hfile hno => ?_⟩
        obtain ⟨word, hword⟩ := exists_classify_outputWord file
        have hwords := words_cons_eq_ok.mpr (.inr ⟨outputWord_ne file, _, _, hword, hmore, rfl⟩)
        have hextras' : outer.extras ++ (inner.above [(.output, .text file)]).extras = [] := hextras
        rw [← request_above_output (hno inner hinner)]
        refine (parse_of_leads .render hleads hwords).trans ?_
        rw [readCommand_outputWord hfile hinner, finish, hextras']
    · cases h

/-! ### Runs that show something -/

variable {host : Host} {fs : Files} {args : List String} {r : Request} {text : Str}

theorem shows_of_runRequest (h : (runRequest host fs r).ending = .exit 0) : ∃ text, Shows host fs r text := by
  unfold runRequest at h
  rcases hread : readInput host fs r with ⟨rs, fault | input⟩
  · rw [hread] at h
    exact absurd h (fault.ending_ne _ _)
  · rw [hread] at h
    dsimp only at h
    rcases hshow : show? input r.action with ⟨more, fault | text⟩
    · rw [hshow] at h
      cases fault <;> simp at h
    · exact ⟨text, rs, input, more, hread, hshow⟩

theorem Shows.printed (h : Shows host fs r text) (hout : outputPath? r.action = none)
    (hs : (runRequest host fs r).ending = .exit 0) : (runRequest host fs r).stdout = endLine text := by
  obtain ⟨rs, hgive⟩ := h.exists_give
  rw [hgive] at hs ⊢
  simp only [give, hout] at hs ⊢
  cases hu : host.unshowable? (endLine text) with
  | some reason =>
    rw [hu] at hs
    cases hs
  | none => rfl

/-- What is shown does not depend on the output. -/
theorem Shows.withOutput (h : Shows host fs r text) (file : String) : Shows host fs (r.withOutput file) text := by
  obtain ⟨rs, input, more, hread, hshow⟩ := h
  have hsame : ∀ action, show? input (Action.withOutput file action) = show? input action := by
    intro action
    rcases action with ⟨_ | _ | _, _⟩ | ⟨_, _⟩ <;> rfl
  exact ⟨rs, input, more, hread, (hsame _).trans hshow⟩

/-- `Ended text shown`: `shown` is `text` with its last line ended. -/
inductive Ended (text : Str) : Str → Prop
  | already (h : text.toList.getLast? = some (.char '\n')) : Ended text text
  | added (h : text.toList.getLast? ≠ some (.char '\n')) : Ended text (text ++ "\n")

theorem ended_endLine (text : Str) : Ended text (endLine text) := by
  unfold endLine
  by_cases h : text.toList.getLast? = some (.char '\n')
  · rw [if_pos h]
    exact .already h
  · rw [if_neg h]
    exact .added h

theorem Ended.getLast? {shown : Str} (h : Ended text shown) :
    shown.toList.getLast? = some (.char '\n') := by
  cases h with
  | already h => exact h
  | added h => simp [Str.toList_append]

/-- A run says nothing and leaves bytes in a file, and nothing else differs. -/
structure Leaves (fs : Files) (p : Path) (bytes : List UInt8) (o : Outcome) : Prop where
  silent : o.stdout = ""
  read : (o.after fs).read p = .ok bytes
  changed : ∃ place, fs.target p = .ok place ∧ ChangedAt place fs (o.after fs)

theorem leaves_of_written {p : Path} {place : Place} {bytes : List UInt8} {o : Outcome} (silent : o.stdout = "")
    (htarget : fs.target p = .ok place) (hwritten : o.written = some (place, bytes)) : Leaves fs p bytes o := by
  have hafter : o.after fs = fs.put place (.file bytes) := by rw [Outcome.after, hwritten]
  refine ⟨silent, ?_, place, htarget, ?_⟩
  · rw [hafter]
    exact Files.read_put_of_target htarget _
  · rw [hafter]
    exact changedAt_put fs htarget bytes

/-- A text that has bytes is written to an output that can be opened. -/
theorem Shows.leaves {p : Path} {bytes : List UInt8} (h : Shows host fs r text)
    (hout : outputPath? r.action = some p) (htarget : ∃ place, fs.target p = .ok place)
    (hbytes : Text.encode (endLine text) = .ok bytes) :
    (runRequest host fs r).ending = .exit 0 ∧ Leaves fs p bytes (runRequest host fs r) := by
  obtain ⟨rs, hgive⟩ := h.exists_give
  obtain ⟨place, ht⟩ := htarget
  rw [hgive]
  simp only [give, hout, ht, hbytes]
  exact ⟨trivial, leaves_of_written rfl ht rfl⟩

/-- A text that has none empties it. -/
theorem Shows.empties {p : Path} {reason : String} (h : Shows host fs r text)
    (hout : outputPath? r.action = some p) (htarget : ∃ place, fs.target p = .ok place)
    (hbytes : Text.encode (endLine text) = .error reason) :
    (runRequest host fs r).ending = .crash (.encoding reason) ∧ Leaves fs p [] (runRequest host fs r) := by
  obtain ⟨rs, hgive⟩ := h.exists_give
  obtain ⟨place, ht⟩ := htarget
  rw [hgive]
  simp only [give, hout, ht, hbytes]
  exact ⟨trivial, leaves_of_written rfl ht rfl⟩

/-- **A file gets what the console gets, if it has bytes.** If a command line that renders succeeds without an
output, it prints what it shows, the last line ended. Every command line that asks for the same and for an
output that can be written says nothing and changes nothing else; it succeeds just if the text has bytes, and
leaves these there. A text with a surrogate, which some terminals take, leaves the output empty. Such a command
line has the output right behind its command; `--` is no value that can be given. -/
theorem run_withOutput (hr : Request.parse args = .ok r) (hrender : commandOf r.action = .render)
    (hout : outputPath? r.action = none) (hs : (run host fs args).ending = .exit 0) :
    (∃ text, Shows host fs r text ∧ Ended text (run host fs args).stdout) ∧
      (run host fs args).stdout.toList.getLast? = some (.char '\n') ∧
      (∀ file args', file ≠ "" → fs.hasDirectory (Path.ofString file).parent = true →
        fs.hasDirectory (Path.ofString file) = false →
        (∀ reason, fs.target (Path.ofString file) ≠ .error (.refused reason)) →
          Request.parse args' = .ok (r.withOutput file) →
            (∀ bytes, Text.encode (run host fs args).stdout = .ok bytes →
              (run host fs args').ending = .exit 0 ∧
                Leaves fs (Path.ofString file) bytes (run host fs args')) ∧
            ∀ reason, Text.encode (run host fs args).stdout = .error reason →
              (run host fs args').ending = .crash (.encoding reason) ∧
                Leaves fs (Path.ofString file) [] (run host fs args')) ∧
      ∃ before rest, args = before ++ "render" :: rest ∧ ∀ file, file ≠ "--" → GivesNoOutput rest →
        Request.parse (before ++ "render" :: ("--output=" ++ file) :: rest) =
          .ok (r.withOutput file) := by
  have hrun : run host fs args = runRequest host fs r := by rw [run, hr]
  rw [hrun] at hs ⊢
  obtain ⟨text, hshows⟩ := shows_of_runRequest hs
  rw [hshows.printed hout hs]
  refine ⟨⟨text, hshows, ended_endLine text⟩, (ended_endLine text).getLast?, ?_,
    exists_parse_withOutput hr hrender⟩
  intro file args' hname hdir hfile hfree hr'
  have hpath : outputPath? (r.withOutput file).action = some (Path.ofString file) := by
    rw [Request.withOutput]
    cases hact : r.action with
    | param path name =>
      rw [hact] at hrender
      cases hrender
    | render member output => simp [Action.withOutput, outputPath?, hname]
  have htarget : ∃ place, fs.target (Path.ofString file) = .ok place :=
    Files.exists_target_iff.mpr ⟨hdir, hfile, hfree⟩
  rw [run, hr']
  exact ⟨fun bytes => (hshows.withOutput file).leaves hpath htarget,
    fun reason => (hshows.withOutput file).empties hpath htarget⟩

namespace Overwritten

/-- A model and nothing else. -/
def files : Files :=
  ⟨["w"], [(["w"], .directory), (["w", "m.yml"], .file (Text.encodeUtf8 "kind: property\n"))], []⟩

def commandLine : List String := ["-q", "render", "m.yml"]

def asked : Request :=
  { verbose := false, quiet := true, path := "m.yml", config := none, action := .render none none }

end Overwritten

open Overwritten in
/-- A page that is written over its own model. -/
theorem run_withOutput_overwritten : Request.parse commandLine = .ok asked ∧
    (run (.bare Yaml.reader) files commandLine).ending = .exit 0 ∧
      ∃ bytes, Text.encode (run (.bare Yaml.reader) files commandLine).stdout = .ok bytes ∧
        Leaves files (Path.ofString "m.yml") bytes
          (run (.bare Yaml.reader) files ["-q", "render", "--output=m.yml", "m.yml"]) := by
  have hr : Request.parse commandLine = .ok asked := rfl
  have hs : (run (.bare Yaml.reader) files commandLine).ending = .exit 0 := by decide +kernel
  obtain ⟨-, -, hwrites, -⟩ := run_withOutput hr rfl rfl hs
  have htarget : (files.target (Path.ofString "m.yml")).toOption = some ["w", "m.yml"] := by decide +kernel
  have hfree : ∀ reason, files.target (Path.ofString "m.yml") ≠ .error (.refused reason) := by
    intro reason h
    rw [h] at htarget
    cases htarget
  have hok : (Text.encode (run (.bare Yaml.reader) files commandLine).stdout).isOk = true := by decide +kernel
  cases hbytes : Text.encode (run (.bare Yaml.reader) files commandLine).stdout with
  | error reason =>
    rw [hbytes] at hok
    cases hok
  | ok bytes =>
    have hleaves := (hwrites "m.yml" ["-q", "render", "--output=m.yml", "m.yml"] (by decide)
      (by decide +kernel) (by decide +kernel) hfree rfl).1 bytes hbytes
    exact ⟨hr, hs, bytes, rfl, hleaves.2⟩

namespace Escaped

/-- A host whose terminal takes a surrogate for the byte that it stands for, if it stands for one. -/
def terminal : Host :=
  { Host.bare Yaml.reader with
    unshowable? := fun text =>
      if text.toList.all fun c => !c.isSurrogate || (0xDC80 ≤ c.toNat && c.toNat ≤ 0xDCFF) then none
      else Host.unshowableUtf8? text }

/-- A model with such a surrogate in its prose. -/
def files : Files :=
  ⟨["w"], [(["w"], .directory),
    (["w", "m.json"], .file (Text.encodeUtf8 "\x7b\"kind\": \"property\", \"docs\": \"\\udc80\"\x7d"))], []⟩

end Escaped

open Escaped in
/-- A page that is printed and cannot be written. -/
theorem run_withOutput_escaped : (run terminal files ["render", "m.json"]).ending = .exit 0 ∧
    (run terminal files ["render", "--output=o.md", "m.json"]).ending ≠ .exit 0 ∧
    ((run terminal files ["render", "--output=o.md", "m.json"]).after files).read (Path.ofString "o.md") = .ok [] :=
  ⟨by decide +kernel, by decide +kernel, by decide +kernel⟩

end Cli

end ApiPage
