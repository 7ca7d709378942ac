import Mathlib
import RefHart.Proofs.Dumps
import RefHart.Proofs.Images
import RefHart.Tool.Assembler

/-!
# From the source to the dumps

**Theorem (`AssemblerTool.run_asm`).** The assembler tool writes the image of the program that the
library assembles, whatever it is to report. From this image the reference tool comes to the dumps of
the simulated program, and the listing shows every word of the program at its address. The files may be
kept in any way that obeys the laws of `FileStore`.

The two tools have nothing in common but the file. What is read back from it are the bytes of the
program (`Image.read_image`): so the machine is loaded with them (`inputs?_of_read`), and the listing
takes them apart again (`zipIdx_words_assemble`).
-/

namespace RefHart

/-- The line in which an emitted word is listed. -/
def ProgramLine.listing (showWords : Bool) (l : ProgramLine) : Text :=
  Numeral.markedHex 4 l.address.toNat ++ ": " ++
    (if showWords then Numeral.hex 8 l.word.toNat ++ "  " else []) ++
    (Instruction.decode l.word).text

/-- The words of a program stand four bytes apart. -/
theorem address_of_lines {t : Text} {k : Nat} {l : ProgramLine}
    (h : (assemble t).lines[k]? = some l) : l.address = BitVec.ofNat 32 (4 * k) := by
  have hlines : (assemble t).lines =
      (Source.ofText t).slots.toList.map (·.programLine (Source.ofText t).labels) := rfl
  rw [hlines, List.getElem?_map, Option.map_eq_some_iff] at h
  obtain ⟨slot, hslot, rfl⟩ := h
  exact (Source.slots_ofLines (Text.lines t) k slot hslot).1

namespace AssemblerTool

open ToolM

variable {σ κ : Type} {store : FileStore σ κ} {s s' : σ} {input image source : Text}

theorem zipIdx_words_assemble (t : Text) (showWords : Bool) :
    (assemble t).words.zipIdx.map (instructionLine showWords) =
      (assemble t).lines.map (·.listing showWords) := by
  refine List.ext_getElem? fun k => ?_
  rw [List.getElem?_map, List.getElem?_map, List.getElem?_zipIdx, Program.words, List.getElem?_map]
  cases hl : (assemble t).lines[k]? with
  | none => rfl
  | some l =>
    rw [Option.map_some, Option.map_some, Option.map_some, Option.map_some, instructionLine,
      ProgramLine.listing, address_of_lines hl, Nat.zero_add]

theorem exitCode_report (p : Program) (input : Text) (labels : Bool) (format : ReportFormat) :
    (report p input labels format).exitCode = 0 := by
  cases format <;> rfl

theorem assembleFile_of_read (hread : store.read s input = .ok source)
    (hwrite : store.access.write image (Image.ofProgram (assemble source)) s = (.ok (), s'))
    (strict labels : Bool) (format : ReportFormat) :
    ∃ outcome, assembleFile store.access input image strict labels format s =
        (.ok outcome, s') ∧
      outcome.exitCode = if strict ∧ (assemble source).hasErrors then 1 else 0 := by
  rw [assembleFile, bind_of_ok (readFile_of_read hread), bind_of_ok (writeFile_of_write hwrite)]
  simp only [Bool.and_eq_true]
  split_ifs with hstrict
  · exact ⟨_, rfl, rfl⟩
  · exact ⟨_, rfl, exitCode_report _ _ _ _⟩

theorem disassembleFile_of_read
    (hread : store.read s image = .ok (Image.ofProgram (assemble source))) (showWords : Bool) :
    disassembleFile store.access image showWords s =
      (.ok { out := ((assemble source).lines.map (·.listing showWords)).flatMap Image.line },
        s) := by
  rw [disassembleFile, bind_of_ok (readFile_of_read hread), Image.read_image]
  show (Except.ok ({ out := _ } : Outcome), s) = _
  rw [Program.bytes, Image.words_flatMap_bigBytes, zipIdx_words_assemble]

theorem run_of_read? {arguments : List Text} {command : Command}
    (h : read? arguments = some command) (files : FileAccess (StateM σ)) :
    (run files arguments).run s = ToolM.outcome (command.run files) s := by
  rw [run, h]
  rfl

/-- The image of a program is the only input of a run that names no other. -/
theorem inputs?_of_read {read : Text → Except FileError Text}
    (hread : read image = .ok (Image.ofProgram (assemble source))) (o : ReferenceTool.Options)
    (hcode : o.code = image) (hdata : o.data? = none) (hsettings : o.settings? = none) :
    o.inputs? read = some ({}, (assemble source).bytes, []) := by
  rw [ReferenceTool.Options.inputs?, hcode, hdata, hsettings, ReferenceTool.imageAt?, hread]
  simp only [Except.toOption, Option.bind_some, Image.read_image]
  rfl

/-- The two tools one after the other on any files: the image that is written, the dumps that come of
it, and its listing. -/
theorem run_asm {σ κ : Type} [DecidableEq κ] (store : FileStore σ κ) {s : σ}
    {arguments : List Text} {input image source : Text} {strict labels : Bool}
    {format : ReportFormat} (h : read? arguments = some (.asm input image strict labels format))
    (hinput : store.read s input = .ok source) (hwritable : store.Writable s image) :
    let p := assemble source
    let assembled : Outcome × σ := (run store.access arguments).run s
    (assembled.1.exitCode = if strict ∧ p.hasErrors then 1 else 0) ∧
      (∀ file, store.content assembled.2 file =
        if store.locate s image = some file then some (.text (Image.ofProgram p))
        else store.content s file) ∧
      ((store.locate s image).isSome →
        (∀ (arguments : List Text) (maxCycles : Nat) (registerDump memoryDump : Text)
          (format : ReportFormat),
          ReferenceTool.read? arguments = some (.simulate
            { code := image, registerDump, memoryDump, maxCycles? := some maxCycles, format }) →
          store.Writable s registerDump → store.Writable s memoryDump →
          store.Apart s registerDump memoryDump →
          let ended : Outcome × σ := (ReferenceTool.run store.access arguments).run assembled.2
          ended.1.exitCode = 0 ∧
            ReferenceTool.Dumped store assembled.2 ended.2 registerDump memoryDump
              (simulate p.bytes [] maxCycles)) ∧
        ∀ (arguments : List Text) (showWords : Bool),
          read? arguments = some (.disasm image showWords) →
          (run store.access arguments).run assembled.2 =
            ({ out := (p.lines.map (·.listing showWords)).flatMap Image.line }, assembled.2)) := by
  intro p assembled
  obtain ⟨s₁, hwrite⟩ := hwritable (Image.ofProgram p)
  obtain ⟨outcome, hassemble, hexit⟩ := assembleFile_of_read hinput hwrite strict labels format
  have hassembled : assembled = (outcome, s₁) := by
    show (run store.access arguments).run s = _
    rw [run_of_read? h, Command.run, outcome_of_ok hassemble]
  rw [hassembled]
  refine ⟨hexit, FileStore.content_write hwrite, fun hkept => ?_⟩
  obtain ⟨file, himage⟩ := Option.isSome_iff_exists.1 hkept
  have hread : store.read s₁ image = .ok (Image.ofProgram p) :=
    FileStore.read_of_write hwrite himage
  refine ⟨?_, ?_⟩
  · intro arguments maxCycles registerDump memoryDump format h hregisters hmemory hapart
    have hinputs := inputs?_of_read hread
      { code := image, registerDump, memoryDump, maxCycles? := some maxCycles, format } rfl rfl rfl
    -- the sizes are those of the defaults
    have hsize : MachineConfig.Possible { maxCycles } := (by decide : MachineConfig.Possible {})
    exact ReferenceTool.run_of_possible h hinputs hsize (hregisters.write hwrite)
      (hmemory.write hwrite) (hapart.write hwrite)
  · intro arguments showWords h
    rw [run_of_read? h, Command.run, outcome_of_ok (disassembleFile_of_read hread showWords)]

/-- A source with an error under `--strict`: its image is written, run and listed all the same. -/
theorem run_asm_strict :
    let files : Files := (∅ : Files).insert "a.s" (.text "addi x1, x0, 5\naddi x1, x1, y\n")
    let p := assemble "addi x1, x0, 5\naddi x1, x1, y\n"
    let assembled : Outcome × Files :=
      (run Files.access ["asm", "--strict", "a.s", "-o", "a.im"]).run files
    let ended : Outcome × Files :=
      (ReferenceTool.run Files.access ["--im=a.im", "--max-cycles=7"]).run assembled.2
    assembled.1.exitCode = 1 ∧
      assembled.2[("a.im" : Text)]? = some (.text (Image.ofProgram p)) ∧
      ended.1.exitCode = 0 ∧
      ReferenceTool.Dumped Files.store assembled.2 ended.2 "RF.golden" "DM.golden"
        (simulate p.bytes [] 7) ∧
      (run Files.access ["disasm", "a.im"]).run assembled.2 =
        ({ out := "0x0000: addi x1, x0, 5\n0x0004: addi x1, x1, 0\n" }, assembled.2) := by
  intro files p assembled ended
  have hread : read? ["asm", "--strict", "a.s", "-o", "a.im"] =
      some (.asm "a.s" "a.im" true false .text) := by
    decide +kernel
  have hdisasm : read? ["disasm", "a.im"] = some (.disasm "a.im" false) := by decide +kernel
  have hgolden : ReferenceTool.read? ["--im=a.im", "--max-cycles=7"] =
      some (.simulate { code := "a.im", maxCycles? := some 7 }) := by
    decide +kernel
  have himage : Files.target? "a.im" = some "a.im" := by decide +kernel
  have hregisters : Files.target? "RF.golden" = some "RF.golden" := by decide +kernel
  have hmemory : Files.target? "DM.golden" = some "DM.golden" := by decide +kernel
  have hinput : files.read "a.s" = .ok "addi x1, x0, 5\naddi x1, x1, y\n" := by decide +kernel
  have herrors : p.hasErrors = true := by decide +kernel
  have hlisting : (p.lines.map (·.listing false)).flatMap Image.line =
      "0x0000: addi x1, x0, 5\n0x0004: addi x1, x1, 0\n" := by
    decide +kernel
  obtain ⟨hexit, hfiles, hkept⟩ :=
    run_asm Files.store hread hinput (Files.writable_of_target? himage)
  obtain ⟨hdumps, hlist⟩ := hkept (Option.isSome_iff_exists.2 ⟨_, himage⟩)
  have hapart : Files.store.Apart files "RF.golden" "DM.golden" :=
    Files.apart_of_ne (by rw [hregisters, hmemory]; decide)
  obtain ⟨hended, hdumped⟩ := hdumps _ _ _ _ _ hgolden (Files.writable_of_target? hregisters)
    (Files.writable_of_target? hmemory) hapart
  refine ⟨?_, ?_, hended, hdumped, ?_⟩
  · exact hexit.trans (if_pos ⟨rfl, herrors⟩)
  · exact (hfiles "a.im").trans (if_pos himage)
  · have hout := hlist _ false hdisasm
    rw [hlisting] at hout
    exact hout

end AssemblerTool

end RefHart
