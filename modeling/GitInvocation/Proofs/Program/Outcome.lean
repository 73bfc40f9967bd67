import GitInvocation.Program
import GitInvocation.Proofs.CommandLine.Levels
import GitInvocation.Proofs.Settings.Levels

/-!
# The outcome of rendering

Rendering runs through seven stages: the settings are loaded, logging starts, the request is read,
the configuration in force is read, the request is decoded, its arguments are assembled, and they
are split into words when each of these is wanted on a line of its own. Either all stages succeed
and the output is the arguments and a line feed, or one of them fails and nothing is printed. How
much is logged has no influence on this, with one exception: nothing keeps the log from being sent
to the standard output, and then its lines stand there among the arguments or in the place of them.
Each line of a real log starts with the time, which is left out here.
-/
namespace GitInvocation

namespace Program

variable {k : Chance} {order : LayerOrder} {w : World} {g g' : GlobalOptions} {o : RenderOptions}

/-- Where the log goes, if anywhere, and the files once logging has started: a log file has been
created or emptied. -/
def startLog (files : FileTree) : Option String → Except LogFault (Option Place × FileTree)
  | none => .ok (none, files)
  | some path => (openLog files path).map fun opened => (some opened.1, opened.2)

theorem openLog_of_startLog {files : FileTree} {logFile : Option String} {e : LogFault}
    (h : startLog files logFile = .error e) :
    ∃ path, logFile = some path ∧ ∃ e, openLog files path = .error e := by
  cases logFile with
  | none => cases h
  | some path =>
    rw [startLog] at h
    cases hopen : openLog files path with
    | error e => exact ⟨path, rfl, e, hopen⟩
    | ok opened => rw [hopen] at h; cases h

/-- The settings are loaded and logging starts. -/
structure Starts (order : LayerOrder) (w : World) (g : GlobalOptions) (settings : Settings)
    (log : Option Place) (files : FileTree) : Prop where
  load : (loader g w.files).loadBy order w.files w.environment = .ok settings
  log : startLog w.files settings.logFile = .ok (log, files)

/-- The text of the request and the configuration in force are read as well. -/
inductive Reads (order : LayerOrder) (w : World) (g : GlobalOptions) (o : RenderOptions)
    (text : String) (s : Snapshot) : Prop where
  | intro {settings : Settings} {log : Option Place} {files : FileTree}
      (start : Starts order w g settings log files)
      (request : Rendering.requestText o files w.input = .ok text)
      (configure : Rendering.snapshot o settings files = .ok s)

/-- The request is decoded as well, and its arguments are assembled. -/
inductive Assembles (order : LayerOrder) (w : World) (g : GlobalOptions) (o : RenderOptions)
    (arguments : String) : Prop where
  | intro {text : String} {s : Snapshot} {operation : Operation} (read : Reads order w g o text s)
      (decode : Request.parse text = .ok operation)
      (assemble : operation.arguments s = .ok arguments)

/-- The arguments as they are printed: as they are, or a line for each word. -/
inductive Formatted (arguments : String) : Bool → String → Prop where
  | plain : Formatted arguments false arguments
  | words {words : List String} (h : words? arguments = some words) :
      Formatted arguments true ("\n".intercalate words)

/-- All stages succeed. -/
inductive Renders (order : LayerOrder) (w : World) (g : GlobalOptions) (o : RenderOptions)
    (printed : String) : Prop where
  | intro {arguments : String} (assembled : Assembles order w g o arguments)
      (format : Formatted arguments o.argv printed)

/-- A stage fails after those before it have succeeded. -/
inductive Fails (order : LayerOrder) (w : World) (g : GlobalOptions) (o : RenderOptions) :
    Prop where
  | load {e : LoadFault} (h : (loader g w.files).loadBy order w.files w.environment = .error e)
  | log {settings : Settings} {e : LogFault}
      (load : (loader g w.files).loadBy order w.files w.environment = .ok settings)
      (h : startLog w.files settings.logFile = .error e)
  | request {settings : Settings} {log : Option Place} {files : FileTree} {e : Rendering.Fault}
      (start : Starts order w g settings log files)
      (h : Rendering.requestText o files w.input = .error e)
  | configure {settings : Settings} {log : Option Place} {files : FileTree} {text : String}
      {e : Rendering.Fault} (start : Starts order w g settings log files)
      (request : Rendering.requestText o files w.input = .ok text)
      (h : Rendering.snapshot o settings files = .error e)
  | decode {text : String} {s : Snapshot} {e : DecodeError} (read : Reads order w g o text s)
      (h : Request.parse text = .error e)
  | assemble {text : String} {s : Snapshot} {operation : Operation} {e : Rejection}
      (read : Reads order w g o text s) (decode : Request.parse text = .ok operation)
      (h : operation.arguments s = .error e)
  | split {arguments : String} (assembled : Assembles order w g o arguments) (argv : o.argv = true)
      (h : words? arguments = none)

/-- Every stage succeeds or fails. -/
theorem renders_or_fails (order : LayerOrder) (w : World) (g : GlobalOptions) (o : RenderOptions) :
    (∃ printed, Renders order w g o printed) ∨ Fails order w g o := by
  -- One stage after the other; what has succeeded so far is carried along.
  cases hload : (loader g w.files).loadBy order w.files w.environment with
  | error e => exact .inr (.load hload)
  | ok settings =>
  cases hlog : startLog w.files settings.logFile with
  | error e => exact .inr (.log hload hlog)
  | ok started =>
  obtain ⟨log, files⟩ := started
  have hstart : Starts order w g settings log files := ⟨hload, hlog⟩
  cases hrequest : Rendering.requestText o files w.input with
  | error e => exact .inr (.request hstart hrequest)
  | ok text =>
  cases hconfigure : Rendering.snapshot o settings files with
  | error e => exact .inr (.configure hstart hrequest hconfigure)
  | ok s =>
  have hread : Reads order w g o text s := ⟨hstart, hrequest, hconfigure⟩
  cases hdecode : Request.parse text with
  | error e => exact .inr (.decode hread hdecode)
  | ok operation =>
  cases hassemble : operation.arguments s with
  | error e => exact .inr (.assemble hread hdecode hassemble)
  | ok arguments =>
  have hassembled : Assembles order w g o arguments := ⟨hread, hdecode, hassemble⟩
  cases hargv : o.argv with
  | false => exact .inl ⟨arguments, hassembled, by rw [hargv]; exact .plain⟩
  | true =>
  cases hwords : words? arguments with
  | none => exact .inr (.split hassembled hargv hwords)
  | some words => exact .inl ⟨_, hassembled, by rw [hargv]; exact .words hwords⟩

section Log

variable {settings : Settings} {log : Option Place} {files : FileTree} {lines : List String}
  {text whole : List Char}

/-- The settings, where the log goes, and the files once logging has started; `none` when one of the
two stages fails. -/
def started? (order : LayerOrder) (w : World) (g : GlobalOptions) :
    Option (Settings × Option Place × FileTree) :=
  ((loader g w.files).loadBy order w.files w.environment).toOption.bind fun settings =>
    (startLog w.files settings.logFile).toOption.map fun started => (settings, started)

theorem started?_eq_some_iff :
    started? order w g = some (settings, log, files) ↔ Starts order w g settings log files := by
  rw [started?, Option.bind_eq_some_iff]
  constructor
  · rintro ⟨settings, hload, hstarted⟩
    obtain ⟨started, hlog, heq⟩ := Option.map_eq_some_iff.mp hstarted
    cases heq
    exact ⟨ok_of_toOption hload, ok_of_toOption hlog⟩
  · intro h
    rw [h.load]
    refine ⟨settings, rfl, ?_⟩
    rw [h.log]
    rfl

/-- The log goes to the standard output. -/
def LogsToOutput (order : LayerOrder) (w : World) (g : GlobalOptions) : Prop :=
  ∃ settings log files, Starts order w g settings log files ∧ logsToOutput files log

theorem logsToOutput_iff : LogsToOutput order w g ↔
    (started? order w g).any fun started => logsToOutput started.2.2 started.2.1 := by
  simp only [LogsToOutput, ← started?_eq_some_iff, Option.any_eq_true, Prod.exists]

instance : Decidable (LogsToOutput order w g) := decidable_of_iff' _ logsToOutput_iff

/-- The lines of the log that go to the standard output. -/
def leaked (order : LayerOrder) (w : World) (g : GlobalOptions) (o : RenderOptions) : List String :=
  match started? order w g with
  | none => []
  | some (settings, log, files) =>
    if logsToOutput files log then
      settings.fileVerbosity.fileLines (Rendering.events o settings files w.input)
    else []

theorem leaked_of_starts (h : Starts order w g settings log files) :
    leaked order w g o =
      if logsToOutput files log then
        settings.fileVerbosity.fileLines (Rendering.events o settings files w.input)
      else [] := by
  rw [leaked, started?_eq_some_iff.mpr h]

theorem leaked_of_not_logsToOutput (h : ¬LogsToOutput order w g) : leaked order w g o = [] := by
  cases hstarted : started? order w g with
  | none => rw [leaked, hstarted]
  | some started =>
    obtain ⟨settings, log, files⟩ := started
    have hstart := started?_eq_some_iff.mp hstarted
    rw [leaked_of_starts hstart, if_neg fun hout => h ⟨_, _, _, hstart, hout⟩]

/-- Whole lines stand among the pieces of a text, both in their order. -/
inductive Among : List String → List Char → List Char → Prop where
  | text (text : List Char) : Among [] text text
  | line (piece : List Char) (line : String) {lines : List String} {text whole : List Char}
      (h : Among lines text whole) :
      Among (line :: lines) (piece ++ text) (piece ++ line.toList ++ '\n' :: whole)

theorem mixed_among (gaps : List Nat) (lines : List String) (text : List Char) :
    Among lines text (mixed gaps lines text) := by
  induction lines generalizing gaps text with
  | nil => exact .text text
  | cons line lines ih =>
    have h := Among.line (text.take (gaps.headD 0)) line (ih gaps.tail (text.drop (gaps.headD 0)))
    rwa [List.take_append_drop] at h

/-- Every way in which the lines can stand among the text comes from some gaps. -/
theorem Among.exists_mixed (h : Among lines text whole) :
    ∃ gaps, mixed gaps lines text = whole := by
  induction h with
  | text text => exact ⟨[], rfl⟩
  | line piece line h ih =>
    obtain ⟨gaps, rfl⟩ := ih
    refine ⟨piece.length :: gaps, ?_⟩
    rw [mixed, List.headD_cons, List.take_left, List.drop_left, List.tail_cons]

theorem Among.length_add_le (h : Among lines text whole) :
    text.length + lines.length ≤ whole.length := by
  induction h with
  | text text => exact Nat.le_refl _
  | line piece line h ih =>
    simp only [List.length_append, List.length_cons]
    omega

/-- A text is left as it is by no lines only. -/
theorem Among.eq_nil (h : Among lines text text) : lines = [] := by
  have hlength := h.length_add_le
  exact List.eq_nil_of_length_eq_zero (by omega)

theorem mixed_nil (gaps : List Nat) (lines : List String) :
    mixed gaps lines [] = (unlines lines).toList := by
  induction lines generalizing gaps with
  | nil => rfl
  | cons line lines ih =>
    rw [mixed, List.take_nil, List.drop_nil, List.nil_append, ih, unlines, unlines, List.map_cons,
      String.join_cons]
    simp

theorem conclude_stdout (gaps : List Nat) (settings : Settings) (files : FileTree)
    (log : Option Place) (r : Report) :
    (conclude gaps settings files log r).stdout =
      String.ofList (mixed gaps
        (if logsToOutput files log then settings.fileVerbosity.fileLines r.events else [])
        r.stdout.toList) := by
  dsimp only [conclude]
  cases logsToOutput files log with
  | true => rfl
  | false => exact String.ofList_toList.symm

end Log

/-- A rendering as a command that needs settings. -/
def rendering (w : World) (o : RenderOptions) (settings : Settings) (files : FileTree) : Report :=
  renderReport o settings files w.input

theorem runBy_eq {words : List String} {c : CommandLine} (k : Chance)
    (hparse : CommandLine.parse words = .ok c) (hcommand : c.command = some (.render o)) :
    runBy k words w = withSettings k w c.options (rendering w o) := by
  rw [runBy, hparse]
  dsimp only
  rw [runCommand, hcommand]
  rfl

/-- The outcome is decided by the report of the command and by where the log goes. -/
theorem withSettings_of_starts {settings : Settings} {log : Option Place} {files : FileTree}
    (h : Starts k.order w g settings log files) (command : Settings → FileTree → Report) :
    withSettings k w g command =
      conclude k.gaps settings files log (command settings files) := by
  have hlog := h.log
  rw [withSettings, h.load]
  dsimp only
  cases hfile : settings.logFile with
  | none =>
    rw [hfile] at hlog
    cases hlog
    rfl
  | some path =>
    rw [hfile, startLog] at hlog
    cases hopen : openLog w.files path with
    | error e => rw [hopen] at hlog; cases hlog
    | ok opened =>
      rw [hopen] at hlog
      cases hlog
      dsimp only
      rw [hopen]

/-- A rendering that prints the given text, with the lines of the log that go there as well, and ends
with the given code. -/
structure Ends (k : Chance) (w : World) (g : GlobalOptions) (o : RenderOptions) (code : Nat)
    (text : String) : Prop where
  code : (withSettings k w g (rendering w o)).code = code
  stdout : (withSettings k w g (rendering w o)).stdout =
    String.ofList (mixed k.gaps (leaked k.order w g o) text.toList)

section Run

variable {settings : Settings} {log : Option Place} {files : FileTree} {text : String}
  {s : Snapshot}

theorem run_of_reads (hrequest : Rendering.requestText o files w.input = .ok text)
    (hconfigure : Rendering.snapshot o settings files = .ok s) :
    Rendering.run o settings files w.input =
      (Rendering.ofRequest (Request.render text s)).bind (Rendering.output o.argv) := by
  rw [Rendering.run, hrequest, hconfigure]
  rfl

theorem ends_of_report (hstart : Starts k.order w g settings log files) (code : Nat) (text : String)
    (hcode : (if (rendering w o settings files).fault.isSome then 1 else 0) = code)
    (htext : (rendering w o settings files).stdout = text)
    (hevents : (rendering w o settings files).events =
      Rendering.events o settings files w.input) : Ends k w g o code text := by
  have heq := withSettings_of_starts hstart (rendering w o)
  constructor
  · rw [heq]
    exact hcode
  · rw [heq, conclude_stdout, leaked_of_starts hstart, htext, hevents]

theorem ends_of_ok {printed : String} (hstart : Starts k.order w g settings log files)
    (h : Rendering.run o settings files w.input = .ok printed) :
    Ends k w g o 0 (printed ++ "\n") := by
  apply ends_of_report hstart <;> rw [rendering, renderReport, h]
  · rfl
  · simp [unlines]

theorem ends_of_error (hstart : Starts k.order w g settings log files)
    (h : ∃ e, Rendering.run o settings files w.input = .error e) : Ends k w g o 1 "" := by
  obtain ⟨e, h⟩ := h
  apply ends_of_report hstart <;> rw [rendering, renderReport, h]
  rfl

end Run

theorem output_of_formatted {arguments printed : String} {argv : Bool}
    (h : Formatted arguments argv printed) : Rendering.output argv arguments = .ok printed := by
  cases h with
  | plain => rfl
  | words h =>
    rw [Rendering.output, if_pos rfl, h]

theorem output_unsplit {arguments : String} {argv : Bool} (hargv : argv = true)
    (h : words? arguments = none) :
    Rendering.output argv arguments = .error (.unsplit arguments) := by
  rw [Rendering.output, if_pos hargv, h]

theorem Renders.ends {printed : String} (h : Renders k.order w g o printed) :
    Ends k w g o 0 (printed ++ "\n") := by
  obtain ⟨⟨⟨hstart, hrequest, hconfigure⟩, hdecode, hassemble⟩, hformat⟩ := h
  refine ends_of_ok hstart ?_
  rw [run_of_reads hrequest hconfigure, Request.render, hdecode]
  dsimp only
  rw [hassemble]
  exact output_of_formatted hformat

theorem Fails.ends (h : Fails k.order w g o) : Ends k w g o 1 "" := by
  cases h with
  | load h =>
    have hlog : ¬LogsToOutput k.order w g := by
      rintro ⟨_, _, _, hstart, -⟩
      exact nomatch h.symm.trans hstart.load
    constructor
    · rw [withSettings, h]
      rfl
    · rw [withSettings, h, leaked_of_not_logsToOutput hlog]
      rfl
  | log hload h =>
    have hlog : ¬LogsToOutput k.order w g := by
      rintro ⟨_, _, _, hstart, -⟩
      cases hload.symm.trans hstart.load
      exact nomatch h.symm.trans hstart.log
    obtain ⟨path, hfile, e, hopen⟩ := openLog_of_startLog h
    constructor
    · rw [withSettings, hload]
      dsimp only
      rw [hfile]
      dsimp only
      rw [hopen]
    · rw [withSettings, hload, leaked_of_not_logsToOutput hlog]
      dsimp only
      rw [hfile]
      dsimp only
      rw [hopen]
      rfl
  | request hstart h =>
    apply ends_of_error hstart
    rw [Rendering.run, h]
    exact ⟨_, rfl⟩
  | configure hstart hrequest h =>
    apply ends_of_error hstart
    rw [Rendering.run, hrequest, h]
    exact ⟨_, rfl⟩
  | decode hread h =>
    obtain ⟨hstart, hrequest, hconfigure⟩ := hread
    apply ends_of_error hstart
    rw [run_of_reads hrequest hconfigure, Request.render, h]
    exact ⟨_, rfl⟩
  | assemble hread hdecode h =>
    obtain ⟨hstart, hrequest, hconfigure⟩ := hread
    apply ends_of_error hstart
    rw [run_of_reads hrequest hconfigure, Request.render, hdecode]
    dsimp only
    rw [h]
    exact ⟨_, rfl⟩
  | split hassembled hargv h =>
    obtain ⟨⟨hstart, hrequest, hconfigure⟩, hdecode, hassemble⟩ := hassembled
    apply ends_of_error hstart
    rw [run_of_reads hrequest hconfigure, Request.render, hdecode]
    dsimp only
    rw [hassemble]
    exact ⟨_, output_unsplit hargv h⟩

/-- The text of a run stands alone exactly when no line of the log goes to the standard output. -/
theorem Ends.stdout_eq_iff {code : Nat} {text : String} (h : Ends k w g o code text) :
    (withSettings k w g (rendering w o)).stdout = text ↔ leaked k.order w g o = [] := by
  have hamong := mixed_among k.gaps (leaked k.order w g o) text.toList
  rw [h.stdout]
  constructor
  · intro heq
    rw [← String.toList_ofList (l := mixed _ _ _), heq] at hamong
    exact hamong.eq_nil
  · intro hnil
    rw [hnil, mixed, String.ofList_toList]

section Verbosity

/-- Two options for the same setting, which differ at most in a verbosity. -/
def AlikeOption (i i' : String × String) : Prop :=
  ∃ k : SettingKey, i.1 = k.key ∧ i'.1 = k.key ∧
    AlikeLeaf k.table k.name (.leaf none (.text i.2)) (.leaf none (.text i'.2))

theorem levelOptions_alike {k : SettingKey} (hk : k.isVerbosity) {v v' : Option Verbosity}
    (h : v.isSome = v'.isSome) :
    List.Forall₂ AlikeOption (v.map fun v => (k.key, toString v.number)).toList
      (v'.map fun v => (k.key, toString v.number)).toList := by
  cases v with
  | none =>
    obtain rfl : v' = none := by simpa using h.symm
    exact .nil
  | some v =>
    obtain ⟨v', rfl⟩ := Option.isSome_iff_exists.mp h.symm
    exact .cons ⟨k, rfl, rfl, .inr ⟨k, hk, rfl, rfl, ⟨v, rfl⟩, ⟨v', rfl⟩⟩⟩ .nil

theorem settings_alike (h : g.Alike g') : List.Forall₂ AlikeOption g.settings g'.settings := by
  have hfile : (g.fileLogLevel.or g.logLevel).isSome = (g'.fileLogLevel.or g'.logLevel).isSome := by
    rw [Option.isSome_or, Option.isSome_or, h.fileLogLevel, h.logLevel]
  rw [GlobalOptions.settings, GlobalOptions.settings, h.logFile]
  refine List.rel_append (List.rel_append ?_ ?_) ?_
  · exact levelOptions_alike (k := .consoleVerbosity) rfl h.logLevel
  · exact levelOptions_alike (k := .fileVerbosity) rfl hfile
  · cases g'.logFile with
    | none => exact .nil
    | some path => exact .cons ⟨.logFile, rfl, rfl, .inl rfl⟩ .nil

theorem layers_overrides (g : GlobalOptions) (files : FileTree) :
    (layers g files).overrides = [] := by
  refine List.foldlRecOn (motive := fun l : Loader => l.overrides = []) g.configs Loader.addFile ?_
    fun l hl _ _ => hl
  cases g.noDefaultConfig with
  | true => rfl
  | false =>
    rw [if_neg Bool.false_ne_true, Loader.addDefaultFile]
    split <;> rfl

theorem loader_alike (h : g.Alike g') (files : FileTree) :
    (loader g files).Alike (loader g' files) := by
  have hlayers : layers g files = layers g' files := by
    rw [layers, layers, h.configs, h.noDefaultConfig]
  have hstart : (layers g files).Alike (layers g' files) := by
    refine ⟨congrArg Loader.sources hlayers, congrArg Loader.environment hlayers, ?_⟩
    rw [layers_overrides, layers_overrides]
    exact .nil
  refine List.rel_foldl (fun l l' hl i i' hi => ?_) hstart (settings_alike h)
  obtain ⟨key, value⟩ := i
  obtain ⟨key', value'⟩ := i'
  obtain ⟨k, rfl, rfl, hleaf⟩ := hi
  dsimp only
  rw [Loader.override?, Loader.override?, k.parse?_key]
  exact ⟨hl.sources, hl.environment,
    Loader.putOverride_alike hl.overrides ⟨k, _, _, rfl, rfl, rfl, rfl, hleaf⟩⟩

theorem Starts.alike {settings : Settings} {log : Option Place} {files : FileTree}
    (h : g.Alike g') (hstart : Starts order w g settings log files) :
    ∃ settings', settings.Alike settings' ∧ Starts order w g' settings' log files := by
  have hload := Loader.load_alike (loader_alike h w.files) order w.files w.environment
  rw [hstart.load] at hload
  generalize hx : (loader g' w.files).loadBy order w.files w.environment = x at hload
  cases hload with
  | ok hs => exact ⟨_, hs, hx, hs.logFile ▸ hstart.log⟩

theorem LogsToOutput.alike (h : g.Alike g') (hlog : LogsToOutput order w g) :
    LogsToOutput order w g' := by
  obtain ⟨settings, log, files, hstart, hout⟩ := hlog
  obtain ⟨settings', -, hstart'⟩ := hstart.alike h
  exact ⟨settings', log, files, hstart', hout⟩

theorem snapshot_alike {settings settings' : Settings} (h : settings.Alike settings')
    (o : RenderOptions) (files : FileTree) :
    Rendering.snapshot o settings files = Rendering.snapshot o settings' files := by
  rw [Rendering.snapshot, Rendering.snapshot, Settings.loadSnapshot, Settings.loadSnapshot,
    h.snapshotFile, h.snapshotValues]

theorem Renders.alike {printed : String} (h : g.Alike g') (hr : Renders order w g o printed) :
    Renders order w g' o printed := by
  obtain ⟨⟨⟨hstart, hrequest, hconfigure⟩, hdecode, hassemble⟩, hformat⟩ := hr
  obtain ⟨settings', hs, hstart'⟩ := hstart.alike h
  exact ⟨⟨⟨hstart', hrequest, (snapshot_alike hs o _).symm.trans hconfigure⟩, hdecode, hassemble⟩,
    hformat⟩

theorem Fails.alike (h : g.Alike g') (hf : Fails order w g o) : Fails order w g' o := by
  -- Otherwise the other run would succeed, and then this one as well.
  refine (renders_or_fails order w g' o).resolve_left ?_
  rintro ⟨printed, hr⟩
  have hcode := (Renders.ends (k := ⟨order, []⟩) (hr.alike h.symm)).code
  rw [(Fails.ends (k := ⟨order, []⟩) hf).code] at hcode
  cases hcode

/-- The same text and the same code at every verbosity, unless there is a log in between. -/
theorem Ends.alike {k' : Chance} {code : Nat} {text : String} (h : g.Alike g')
    (horder : k'.order = k.order) (hend : Ends k w g o code text)
    (hend' : Ends k' w g' o code text) :
    (withSettings k' w g' (rendering w o)).code = (withSettings k w g (rendering w o)).code ∧
      (¬LogsToOutput k.order w g → (withSettings k' w g' (rendering w o)).stdout =
        (withSettings k w g (rendering w o)).stdout) := by
  refine ⟨hend'.code.trans hend.code.symm, fun hlog => ?_⟩
  have hlog' : ¬LogsToOutput k'.order w g' := by
    rw [horder]
    exact fun hlog' => hlog (hlog'.alike h.symm)
  exact (hend'.stdout_eq_iff.mpr (leaked_of_not_logsToOutput hlog')).trans
    (hend.stdout_eq_iff.mpr (leaked_of_not_logsToOutput hlog)).symm

theorem withSettings_alike {k' : Chance} (h : g.Alike g') (horder : k'.order = k.order) :
    (withSettings k' w g' (rendering w o)).code = (withSettings k w g (rendering w o)).code ∧
      (¬LogsToOutput k.order w g → (withSettings k' w g' (rendering w o)).stdout =
        (withSettings k w g (rendering w o)).stdout) := by
  rcases renders_or_fails k.order w g o with ⟨printed, hr⟩ | hf
  · have hr' : Renders k'.order w g' o printed := horder ▸ hr.alike h
    exact hr.ends.alike h horder hr'.ends
  · have hf' : Fails k'.order w g' o := horder ▸ hf.alike h
    exact hf.ends.alike h horder hf'.ends

end Verbosity

/-- All stages succeed, and the arguments and a line feed are all that is printed, or one of them
fails, and nothing is. -/
def AllOrNothing (order : LayerOrder) (w : World) (g : GlobalOptions) (o : RenderOptions)
    (out : Outcome) : Prop :=
  (∃ printed, Renders order w g o printed ∧ out.code = 0 ∧ out.stdout = printed ++ "\n") ∨
    (Fails order w g o ∧ out.code ≠ 0 ∧ out.stdout = "")

end Program

end GitInvocation
