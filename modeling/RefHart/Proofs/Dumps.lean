import Mathlib
import RefHart.Proofs.Directory
import RefHart.Proofs.Running
import RefHart.Tool.Reference

/-!
# Dumps of the reference tool

**Theorem (`ReferenceTool.run_simulate`).** A run of the reference tool first looks for its inputs.
If one of them is missing or is not what it should be, the tool fails and changes no file. Else the
settings of the file hold, over which the command line wins. If they ask for a memory of a size that
no row of bytes has, the tool breaks down, and again no file has changed. In every other case it ends
in success and writes two files: the dumps of the machine with these settings.

The files may be kept in any way that obeys the laws of `FileStore`. Looking for inputs changes no
file, whether they are found or not; `ToolM.Finds` says both at once, so that the readings of several
files are put together by one rule (`Finds.bind`).
-/

namespace RefHart

/-! ## Computations over files -/

namespace ToolM

variable {σ κ α β : Type} {s s' : σ} {tool : ToolM (StateM σ) α}
  {next : α → ToolM (StateM σ) β}

theorem bind_of_ok {a : α} (h : tool s = (.ok a, s')) : (tool >>= next) s = next a s' := by
  show ExceptT.bindCont next (tool s).1 (tool s).2 = _
  rw [h]
  rfl

theorem bind_of_error {failure : Failure} (h : tool s = (.error failure, s')) :
    (tool >>= next) s = (.error failure, s') := by
  show ExceptT.bindCont next (tool s).1 (tool s).2 = _
  rw [h]
  rfl

theorem outcome_of_ok {tool : ToolM (StateM σ) Outcome} {result : Outcome}
    (h : tool s = (.ok result, s')) : tool.outcome s = (result, s') := by
  have hrun : tool.run.run s = (.ok result, s') := h
  show tool.outcome.run s = _
  rw [outcome, StateT.run_bind, hrun]
  rfl

/-- The computation leaves the state as it is. It gives what is to be found, or else fails. -/
def Finds (tool : ToolM (StateM σ) α) (s : σ) : Option α → Prop
  | some a => tool s = (.ok a, s)
  | none => ∃ failure, tool s = (.error failure, s)

theorem finds_pure (a : α) : Finds (pure a) s (some a) := rfl

theorem Finds.bind {a? : Option α} {find : α → Option β} (h : tool.Finds s a?)
    (hnext : ∀ a, (next a).Finds s (find a)) : (tool >>= next).Finds s (a?.bind find) := by
  cases a? with
  | none =>
    obtain ⟨failure, h⟩ := h
    exact ⟨failure, bind_of_error h⟩
  | some a =>
    have hbind : (tool >>= next) s = next a s := bind_of_ok h
    have hfinds := hnext a
    rw [Option.bind_some]
    cases hb : find a with
    | none =>
      rw [hb] at hfinds
      exact hfinds.imp fun failure hfailure => hbind.trans hfailure
    | some b =>
      rw [hb] at hfinds
      exact hbind.trans hfinds

theorem finds_attempt {ε : Type} (context : Text) (message : ε → Text) (result : Except ε α) :
    (attempt context message result).Finds s result.toOption := by
  cases result with
  | ok a => exact rfl
  | error e => exact ⟨_, rfl⟩

variable {store : FileStore σ κ} {path text : Text}

theorem finds_readFile (path : Text) :
    (readFile store.access path).Finds s (store.read s path).toOption := by
  have hlift : (ExceptT.lift (store.access.read path) : ToolM (StateM σ) _) s =
      (.ok (store.read s path), s) := by
    show ((fun p => (Except.ok p.1, p.2)) (store.access.read path s)) = _
    rw [store.read_access]
  have hread : readFile store.access path s =
      (attempt ("reading " ++ path) FileError.message (store.read s path) : ToolM (StateM σ) Text)
        s := bind_of_ok hlift
  have hfinds : Finds (attempt ("reading " ++ path) FileError.message (store.read s path)) s
      (store.read s path).toOption := finds_attempt ..
  cases htext : (store.read s path).toOption with
  | none =>
    rw [htext] at hfinds
    exact hfinds.imp fun failure hfailure => hread.trans hfailure
  | some text =>
    rw [htext] at hfinds
    exact hread.trans hfinds

theorem readFile_of_read (h : store.read s path = .ok text) :
    readFile store.access path s = (.ok text, s) := by
  have hfinds : Finds (readFile store.access path) s (store.read s path).toOption :=
    finds_readFile path
  rwa [h] at hfinds

theorem writeFile_of_write (h : store.access.write path text s = (.ok (), s')) :
    writeFile store.access path text s = (.ok (), s') := by
  have hlift : (ExceptT.lift (store.access.write path text) : ToolM (StateM σ) _) s =
      (.ok (.ok ()), s') := by
    show ((fun p => (Except.ok p.1, p.2)) (store.access.write path text s)) = _
    rw [h]
  exact bind_of_ok hlift

end ToolM

/-! ## Inputs -/

namespace ReferenceTool

open ToolM

/-- The settings in a file; none if it is missing or not what it should be. -/
def settingsAt? (read : Text → Except FileError Text) (path : Text) : Option MachineConfig :=
  (read path).toOption.bind MachineConfig.ofText?

/-- The bytes of the image in a file; none if it is missing or not what it should be. -/
def imageAt? (read : Text → Except FileError Text) (path : Text) : Option (List Byte) :=
  (read path).toOption.bind fun t => (Image.read t).toOption

/-- The settings, the code and the data for a run; none if one of the files is missing or not what
it should be. -/
def Options.inputs? (o : Options) (read : Text → Except FileError Text) :
    Option (MachineConfig × List Byte × List Byte) := do
  let config ← o.settings?.elim (some {}) (settingsAt? read)
  let code ← imageAt? read o.code
  let data ← o.data?.elim (some []) (imageAt? read)
  return (config, code, data)

section

variable {σ κ : Type} {store : FileStore σ κ} {s : σ}

theorem finds_readSettings (path : Text) :
    (readSettings store.access path).Finds s (settingsAt? (store.read s) path) := by
  refine (finds_readFile path).bind fun text => ?_
  cases hconfig : MachineConfig.ofText? text with
  | none => exact ⟨_, rfl⟩
  | some config => exact rfl

theorem finds_readImage (path : Text) :
    (readImage store.access path).Finds s (imageAt? (store.read s) path) :=
  (finds_readFile path).bind fun text => finds_attempt _ _ (Image.read text)

/-- The part of a run in which the inputs are read. -/
def Options.readInputs (o : Options) (files : FileAccess (StateM σ)) :
    ToolM (StateM σ) (MachineConfig × List Byte × List Byte) := do
  let config ← o.settings?.elim (pure {}) (readSettings files)
  let code ← readImage files o.code
  let data ← o.data?.elim (pure []) (readImage files)
  return (config, code, data)

theorem Options.run_eq (o : Options) (files : FileAccess (StateM σ)) :
    o.run files = o.readInputs files >>= fun inputs =>
      o.writeDumps files ((o.override inputs.1).simulate? inputs.2.1 inputs.2.2) := by
  unfold run readInputs
  cases o.settings? <;> cases o.data? <;> simp

theorem finds_elim {α : Type} {path? : Option Text} {reading : Text → ToolM (StateM σ) α}
    {find : Text → Option α} (h : ∀ path, (reading path).Finds s (find path)) (absent : α) :
    (path?.elim (pure absent) reading).Finds s (path?.elim (some absent) find) := by
  cases path? with
  | none => exact finds_pure absent
  | some path => exact h path

theorem Options.finds_readInputs (o : Options) :
    (o.readInputs store.access).Finds s (o.inputs? (store.read s)) :=
  (finds_elim finds_readSettings {}).bind fun _ => (finds_readImage o.code).bind fun _ =>
    (finds_elim finds_readImage []).bind fun _ => finds_pure _

end

/-! ## Dumps -/

/-- The files after dumps of a run have been written to two paths. -/
structure Dumped {σ κ : Type} (store : FileStore σ κ) (s s' : σ) (registerDump memoryDump : Text)
    (result : RunResult) : Prop where
  registers : ∀ file, store.locate s registerDump = some file →
    store.content s' file = some (.text (Image.dumpRegisters result.registers.toList))
  memory : ∀ file, store.locate s memoryDump = some file →
    store.content s' file = some (.text (Image.dumpMemory result.dmem.toList))
  others : ∀ file, store.locate s registerDump ≠ some file →
    store.locate s memoryDump ≠ some file → store.content s' file = store.content s file

theorem exitCode_report (result : RunResult) (o : Options) : (report result o).exitCode = 0 := by
  unfold report
  cases o.format <;> rfl

section

variable {σ κ : Type} {store : FileStore σ κ} {s : σ} {o : Options}

theorem Options.writeDumps_of_writable (hregisters : store.Writable s o.registerDump)
    (hmemory : store.Writable s o.memoryDump) (hapart : store.Apart s o.registerDump o.memoryDump)
    (result : RunResult) :
    ∃ s', o.writeDumps store.access (some result) s = (.ok (report result o), s') ∧
      Dumped store s s' o.registerDump o.memoryDump result := by
  obtain ⟨s₁, h₁⟩ := hregisters (Image.dumpRegisters result.registers.toList)
  obtain ⟨s₂, h₂⟩ := hmemory.write h₁ (Image.dumpMemory result.dmem.toList)
  have hlocate : store.locate s₁ o.memoryDump = store.locate s o.memoryDump :=
    store.locate_of_write _ h₁
  refine ⟨s₂, ?_, ⟨?_, ?_, ?_⟩⟩
  · rw [writeDumps, bind_of_ok (writeFile_of_write h₁), bind_of_ok (writeFile_of_write h₂)]
    rfl
  · intro file hfile
    have hkept : store.content s₂ file = store.content s₁ file :=
      store.content_frame h₂ (hlocate ▸ hapart file hfile)
    rw [hkept, store.content_of_write h₁ hfile]
  · intro file hfile
    exact store.content_of_write h₂ (hlocate.trans hfile)
  · intro file hfile hfile'
    rw [store.content_frame h₂ (hlocate ▸ hfile'), store.content_frame h₁ hfile]

/-! ## Runs -/

theorem run_of_read? {arguments : List Text} (h : read? arguments = some (.simulate o))
    (files : FileAccess (StateM σ)) :
    (run files arguments).run s = ToolM.outcome (o.run files) s := by
  rw [run, h]
  rfl

variable {arguments : List Text} {config : MachineConfig} {code data : List Byte}
  (h : read? arguments = some (.simulate o))
  (hinputs : o.inputs? (store.read s) = some (config, code, data))

include h hinputs

/-- With its inputs the tool does what is to be done with the result of the simulation. -/
theorem run_of_inputs? {outcome : Outcome} {s' : σ}
    (hdumps : o.writeDumps store.access ((o.override config).simulate? code data) s =
      (.ok outcome, s')) :
    (run store.access arguments).run s = (outcome, s') := by
  have hfinds : (o.readInputs store.access).Finds s (o.inputs? (store.read s)) :=
    o.finds_readInputs
  rw [hinputs] at hfinds
  rw [run_of_read? h, o.run_eq]
  exact outcome_of_ok ((bind_of_ok hfinds).trans hdumps)

/-- With memories of possible sizes the tool writes the dumps of the machine that it has run. -/
theorem run_of_possible (hsize : (o.override config).Possible)
    (hregisters : store.Writable s o.registerDump) (hmemory : store.Writable s o.memoryDump)
    (hapart : store.Apart s o.registerDump o.memoryDump) :
    let ended : Outcome × σ := (run store.access arguments).run s
    ended.1.exitCode = 0 ∧
      Dumped store s ended.2 o.registerDump o.memoryDump
        ((o.override config).simulate code data) := by
  obtain ⟨s', hdumps, hdumped⟩ := Options.writeDumps_of_writable hregisters hmemory hapart
    ((o.override config).simulate code data)
  have hsimulate : (o.override config).simulate? code data =
      some ((o.override config).simulate code data) := by
    rw [MachineConfig.simulate?_eq, if_pos hsize]
  rw [run_of_inputs? h hinputs (hsimulate ▸ hdumps)]
  exact ⟨exitCode_report _ o, hdumped⟩

end

end ReferenceTool

end RefHart
