import ApiPage.Cli.Run
import ApiPage.Proofs.Yaml.Blank

/-!
# Reports of files that have no text

A run reads a settings file, if there is one, and a model. When the text of either cannot be had the run
ends with a report, and the report names the model. It is right where the model is the file that failed,
and so whenever a file is missing; a settings file that is a directory or not in UTF-8, or at which the system
refuses to look or to open, is reported under the model's name.
-/

namespace ApiPage

variable {yaml : Yaml.Reader} {home : Home} {fs : Files} {p : Path} {fault : Files.TextFault}

/-! ### Where a text is missing -/

/-- That the system refuses to look is no absence. -/
theorem Files.not_isAbsence_of_look {cause : FileFault} (h : fs.look p = .error cause) :
    cause.isAbsence = false := by
  unfold look at h
  split at h
  · cases h
  · split at h
    · cases h
    · next habsence =>
      obtain rfl := Except.error.inj h
      simpa using habsence

/-- Nor is it one that what is there gives no bytes. -/
theorem FileNode.not_isAbsence_of_contents {node : FileNode} {cause : FileFault}
    (h : node.contents = .error cause) : cause.isAbsence = false := by
  cases node with
  | file bytes => cases h
  | _ =>
    obtain rfl := Except.error.inj h
    rfl

theorem Files.not_isAbsence_of_readText {node : FileNode} {cause : FileFault}
    (hthere : fs.look p = .ok (some node)) (h : fs.readText p = .error (.file cause)) :
    cause.isAbsence = false := by
  unfold readText read at h
  unfold look at hthere
  cases hfind : fs.find p with
  | error cause' =>
    rw [hfind] at hthere
    dsimp only at hthere
    split at hthere <;> simp at hthere
  | ok found =>
    rw [hfind] at h
    dsimp only at h
    cases hbytes : found.2.contents with
    | error cause' =>
      rw [hbytes] at h
      obtain rfl := Files.TextFault.file.inj (Except.error.inj h)
      exact FileNode.not_isAbsence_of_contents hbytes
    | ok bytes =>
      rw [hbytes] at h
      dsimp only at h
      split at h <;> simp at h

theorem Settings.entries_ne_text (name text : String) :
    Settings.entries yaml name text ≠ .error (.text fault) := by
  unfold Settings.entries
  split
  · simp
  · split
    · simp
    · simp
    · split
      · simp
      · split <;> simp

/-- A text of settings, once it is had, is refused for other faults only. -/
theorem Settings.ofText_ne_text (form : Text.NumeralForm) (name text : String) :
    Settings.ofText form yaml name text ≠ .error (.text fault) := by
  unfold Settings.ofText
  cases hes : Settings.entries yaml name text with
  | error cause =>
    intro h
    exact Settings.entries_ne_text name text (hes.trans (congrArg _ (Except.error.inj h)))
  | ok es =>
    cases hst : Settings.style form es with
    | error cause => simp [bind, Except.bind, hst]
    | ok st => simp [bind, Except.bind, hst]

/-- The settings file that a path names cannot be looked for or looked at, or it is there and its text cannot be
had. -/
inductive Settings.Unreadable (home : Home) (fs : Files) (p : Path) : Files.TextFault → Prop
  | named {q : Path} {cause : FileFault} (hq : p.expandUser home = some q)
      (h : fs.look q = .error cause) : Unreadable home fs p (.file cause)
  | looked {file : Path} {cause : FileFault} (hfile : Settings.path home fs p = .ok file)
      (h : fs.look file = .error cause) : Unreadable home fs p (.file cause)
  | text {file : Path} {node : FileNode} {fault : Files.TextFault}
      (hfile : Settings.path home fs p = .ok file) (there : fs.look file = .ok (some node))
      (h : fs.readText file = .error fault) : Unreadable home fs p fault

theorem Settings.look_eq_error {cause : Settings.Fault} :
    Settings.look fs p = .error cause ↔ ∃ fault, fs.look p = .error fault ∧ cause = .text (.file fault) := by
  unfold Settings.look
  cases fs.look p with
  | error fault => simp [eq_comm]
  | ok node => simp

theorem Settings.look_eq_ok {node : Option FileNode} :
    Settings.look fs p = .ok node ↔ fs.look p = .ok node :=
  mapError_eq_ok

theorem Settings.path_eq_text : Settings.path home fs p = .error (.text fault) ↔
    ∃ q cause, p.expandUser home = some q ∧ fs.look q = .error cause ∧ fault = .file cause := by
  unfold Settings.path
  cases p.expandUser home with
  | none => simp
  | some q =>
    cases hlook : Settings.look fs q with
    | error cause =>
      obtain ⟨fault', hfault, rfl⟩ := Settings.look_eq_error.mp hlook
      simp [bind, Except.bind, hlook, hfault, eq_comm]
    | ok node => simp [bind, Except.bind, hlook, Settings.look_eq_ok.mp hlook]

/-- A settings file fails for its text if it cannot be looked at, or is there and its text cannot be had. -/
theorem Settings.read_eq_text : Settings.read yaml home fs p = .error (.text fault) ↔
    Settings.Unreadable home fs p fault := by
  unfold Settings.read Settings.readIn
  constructor
  · intro h
    cases hpath : Settings.path home fs p with
    | error cause =>
      rw [hpath] at h
      obtain rfl := Except.error.inj h
      obtain ⟨q, cause, hq, hlook, rfl⟩ := Settings.path_eq_text.mp hpath
      exact .named hq hlook
    | ok file =>
      simp only [hpath, bind, Except.bind] at h
      cases hlook : Settings.look fs file with
      | error cause =>
        rw [hlook] at h
        obtain rfl := Except.error.inj h
        obtain ⟨cause, hcause, hfault⟩ := Settings.look_eq_error.mp hlook
        obtain rfl := Settings.Fault.text.inj hfault
        exact .looked hpath hcause
      | ok node =>
        rw [hlook] at h
        cases node with
        | none => cases h
        | some node =>
          dsimp only at h
          cases htext : fs.readText file with
          | error fault' =>
            rw [htext] at h
            obtain rfl := Settings.Fault.text.inj (Except.error.inj h)
            exact .text hpath (Settings.look_eq_ok.mp hlook) htext
          | ok text =>
            rw [htext] at h
            exact absurd h (Settings.ofText_ne_text _ _ _)
  · rintro (⟨hq, h⟩ | ⟨hfile, h⟩ | ⟨hfile, there, h⟩)
    · rw [Settings.path_eq_text.mpr ⟨_, _, hq, h, rfl⟩]
      rfl
    · simp only [hfile, bind, Except.bind, Settings.look_eq_error.mpr ⟨_, h, rfl⟩]
    · simp only [hfile, bind, Except.bind, Settings.look_eq_ok.mpr there, h]

/-- A settings file that fails for its text is not missing. -/
theorem Settings.Unreadable.not_absent (h : Settings.Unreadable home fs p fault) :
    (∃ cause, fault = .file cause ∧ cause.isAbsence = false) ∨ ∃ cause, fault = .encoding cause := by
  cases h with
  | named _ h => exact .inl ⟨_, rfl, Files.not_isAbsence_of_look h⟩
  | looked _ h => exact .inl ⟨_, rfl, Files.not_isAbsence_of_look h⟩
  | text _ there h =>
    cases fault with
    | file cause => exact .inl ⟨cause, rfl, Files.not_isAbsence_of_readText there h⟩
    | encoding cause => exact .inr ⟨cause, rfl⟩

theorem ModelFile.data_ne_text (p : Path) (text : String) :
    ModelFile.data yaml p text ≠ .error (.text fault) := by
  unfold ModelFile.data
  split
  · split <;> simp [ModelFile.refuse]
  · split <;> simp [ModelFile.refuse]

/-- A text, once it is had, is refused for other faults only. -/
theorem ModelFile.ofText_ne_text (p : Path) (text : String) :
    ModelFile.ofText yaml p text ≠ .error (.text fault) := by
  have hmodel : ∀ read : Reading (Str × Item),
      read.mapError ModelFile.Fault.ofItem ≠ .error (.text fault) := by
    intro read h
    cases read with
    | error e => cases e <;> cases h
    | ok named => cases h
  intro h
  unfold ModelFile.ofText at h
  cases hv : ModelFile.data yaml p text with
  | error cause =>
    rw [hv] at h
    have hcause : cause = .text fault := Except.error.inj h
    exact ModelFile.data_ne_text p text (hcause ▸ hv)
  | ok v =>
    rw [hv] at h
    cases v with
    | map es => exact hmodel _ h
    | _ => simp [bind, Except.bind, ModelFile.refuse] at h

/-- A model fails for its text if its text cannot be had. -/
theorem ModelFile.read_eq_text :
    ModelFile.read yaml fs p = .error (.text fault) ↔ fs.readText p = .error fault := by
  unfold ModelFile.read
  cases hread : fs.readText p with
  | error fault' => simp
  | ok text => simp [ModelFile.ofText_ne_text]

namespace Cli

variable {host : Host} {args : List String} {r : Request}

/-! ### Reports -/

/-- The text fault for which reading stops. -/
def ReadFault.text? : ReadFault → Option Files.TextFault
  | .settings (.text fault) => some fault
  | .model (.text fault) => some fault
  | _ => none

/-- The settings file of a request cannot be looked at, or it is there and its text cannot be had. -/
abbrev SettingsFail (host : Host) (fs : Files) (r : Request) : Files.TextFault → Prop :=
  Settings.Unreadable host.home fs (settingsPath r)

/-- The settings of a request are known, and the text of its model cannot be had. -/
structure ModelFail (host : Host) (fs : Files) (r : Request) (fault : Files.TextFault) : Prop where
  known : ∃ style, Settings.read host.yaml host.home fs (settingsPath r) = .ok style
  fails : fs.readText (Path.ofString r.path) = .error fault

/-- Reading stops for want of a text. -/
def StopsAtText (host : Host) (fs : Files) (r : Request) (fault : Files.TextFault) : Prop :=
  ∃ rs e, readInput host fs r = (rs, .error e) ∧ e.text? = some fault

theorem ReadFault.text?_eq_some {e : ReadFault} :
    e.text? = some fault ↔ e = .settings (.text fault) ∨ e = .model (.text fault) := by
  cases e with
  | settings cause => cases cause <;> simp [text?]
  | model cause => cases cause <;> simp [text?]

/-- The text for want of which reading stops is that of the settings file or, the settings known, that
of the model. -/
theorem stopsAtText_iff :
    StopsAtText host fs r fault ↔ SettingsFail host fs r fault ∨ ModelFail host fs r fault := by
  have hsettings : SettingsFail host fs r fault ↔
      Settings.read host.yaml host.home fs (settingsPath r) = .error (.text fault) :=
    Settings.read_eq_text.symm
  have hmodel : ModelFail host fs r fault ↔
      (∃ style, Settings.read host.yaml host.home fs (settingsPath r) = .ok style) ∧
        ModelFile.read host.yaml fs (Path.ofString r.path) = .error (.text fault) :=
    ⟨fun h => ⟨h.known, ModelFile.read_eq_text.mpr h.fails⟩,
      fun h => ⟨h.1, ModelFile.read_eq_text.mp h.2⟩⟩
  rw [hsettings, hmodel]
  unfold StopsAtText readInput
  simp only [ReadFault.text?_eq_some]
  cases hs : Settings.read host.yaml host.home fs (settingsPath r) with
  | error cause =>
    constructor
    · rintro ⟨rs, e, hread, he⟩
      obtain ⟨-, rfl⟩ : rs = [] ∧ .settings cause = e := by simpa using hread
      simpa using he
    · rintro (h | ⟨⟨style, h⟩, -⟩)
      · obtain rfl := Except.error.inj h
        exact ⟨_, _, rfl, .inl rfl⟩
      · cases h
  | ok style =>
    cases hm : ModelFile.read host.yaml fs (Path.ofString r.path) with
    | error cause =>
      constructor
      · rintro ⟨rs, e, hread, he⟩
        obtain ⟨-, rfl⟩ : _ = rs ∧ .model cause = e := by simpa using hread
        simpa using he
      · rintro (h | ⟨-, h⟩)
        · cases h
        · obtain rfl := Except.error.inj h
          exact ⟨_, _, rfl, .inr rfl⟩
    | ok named => simp

/-- The report of a run that stops for want of a text: it names the model. -/
theorem runRequest_of_text {rs : List Record} {e : ReadFault}
    (hread : readInput host fs r = (rs, .error e)) (he : e.text? = some fault) : runRequest host fs r =
      { ending := .exit 1
        stderr := (Journal.initial.setUp r.verbose r.quiet none).consoleTexts rs ++
          textReport (commandOf r.action).title (Path.ofString r.path) fault } := by
  have hcrash : e.crash? = none := by
    rcases ReadFault.text?_eq_some.mp he with rfl | rfl
    · rfl
    · rfl
  have hreport : e.report (commandOf r.action).title (Path.ofString r.path) =
      textReport (commandOf r.action).title (Path.ofString r.path) fault := by
    rcases ReadFault.text?_eq_some.mp he with rfl | rfl
    · rfl
    · rfl
  rw [runRequest, hread]
  simp only [ReadFault.ending, hcrash, hreport, told]

/-- **A text that cannot be had is reported under the model's name.** Reading stops at a text just if the
settings file cannot be looked at or is there without one, or the settings are known and the model has none;
then the run ends with the report, whichever of the two it is. A settings file that fails is never missing, so
the report is right wherever it says that nothing is there. -/
theorem textReport_of_run (hr : Request.parse args = .ok r) (host : Host) (fs : Files)
    (fault : Files.TextFault) :
    (StopsAtText host fs r fault ↔ SettingsFail host fs r fault ∨ ModelFail host fs r fault) ∧
      (∀ rs e, readInput host fs r = (rs, .error e) → e.text? = some fault → run host fs args =
        { ending := .exit 1
          stderr := (Journal.initial.setUp r.verbose r.quiet none).consoleTexts rs ++
            textReport (commandOf r.action).title (Path.ofString r.path) fault }) ∧
      (SettingsFail host fs r fault →
        (∃ cause, fault = .file cause ∧ cause.isAbsence = false) ∨ ∃ cause, fault = .encoding cause) := by
  refine ⟨stopsAtText_iff, fun rs e hread he => ?_, Settings.Unreadable.not_absent⟩
  rw [run, hr]
  exact runRequest_of_text hread he

namespace Latin

/-- A model, and a settings file that is no text. -/
def files : Files :=
  ⟨["w"], [(["w"], .directory), (["w", "m.yml"], .file (Text.encodeUtf8 "kind: property\n")),
    (["w", "conf.yml"], .file [0xFF])], []⟩

def commandLine : List String := ["render", "m.yml", "--config", "conf.yml"]

def asked : Request :=
  { verbose := false, quiet := false, path := "m.yml", config := some "conf.yml"
    action := .render none none }

end Latin

open Latin in
/-- A settings file that is no text is reported. -/
theorem textReport_of_run_latin : Request.parse commandLine = .ok asked ∧
    SettingsFail (.bare Yaml.reader) files asked (.encoding .invalidStart) ∧ ∃ rs e,
      readInput (.bare Yaml.reader) files asked = (rs, .error e) ∧
        e.text? = some (.encoding .invalidStart) ∧ run (.bare Yaml.reader) files commandLine =
          { ending := .exit 1
            stderr := (Journal.initial.setUp false false none).consoleTexts rs ++
              textReport "docrender render" (Path.ofString "m.yml") (.encoding .invalidStart) } := by
  have hr : Request.parse commandLine = .ok asked := rfl
  obtain ⟨hstops, hrun, -⟩ := textReport_of_run hr (.bare Yaml.reader) files (.encoding .invalidStart)
  have hfail : SettingsFail (.bare Yaml.reader) files asked (.encoding .invalidStart) :=
    @Settings.Unreadable.text _ _ _ ⟨"/", ["w", "conf.yml"]⟩ (.file [0xFF]) _ rfl rfl rfl
  obtain ⟨rs, e, hread, he⟩ := hstops.mpr (.inl hfail)
  exact ⟨hr, hfail, rs, e, hread, he, hrun rs e hread he⟩

open Latin in
/-- A report that names a file whose text can be had. -/
theorem textReport_misnames_latin : (run (.bare Yaml.reader) files commandLine).ending = .exit 1 ∧
    (run (.bare Yaml.reader) files commandLine).stderr =
      "docrender render failed: m.yml is not UTF-8 text (invalid start byte)\n" ∧
      ∀ fault, files.readText (Path.ofString "m.yml") ≠ .error fault := by
  have hread : (files.readText (Path.ofString "m.yml")).isOk = true := by decide +kernel
  refine ⟨by decide +kernel, by decide +kernel, fun fault h => ?_⟩
  rw [h] at hread
  cases hread

end Cli

end ApiPage
