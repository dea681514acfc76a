import StackAsm.Cli.Command
import StackAsm.Proofs.Assembled
import StackAsm.Proofs.Disk

/-!
# StackAsm.Proofs.Commands

What the commands leave on a disk.

`asm` ends in one of three ways: the program is refused, the image cannot be written, or the image
is written. In the first two the disk stays as it was. In the third nothing but the file at the
target changes, and `dump` lists from there the very image that was assembled
(`AsmCommand.run_asm`). The image is read back without any condition on the program, since its
version and the number of its labels are always such that they can be read.
-/

namespace StackAsm.Cli

/-- A report on a failure: an error line, and nothing else but the log. -/
structure Report.Fails (report : Report) (message : String) : Prop where
  exitCode : report.exitCode = 1
  stdout : report.stdout = ""
  stderr : report.stderr = errorLine message

/-- An image has become the file at a path. -/
structure Stored (image : Image) (path : Path) (before after : Disk) : Prop where
  /-- The file is the only change. -/
  replaced : ∃ place, after.locate path = .ok place ∧ before.Replaces after place image.toBytes
  bytes : after.read path = .ok image.toBytes
  /-- Paths that do not lead to the file read what they read before. -/
  others : ∀ other raw, after.locate other ≠ after.locate path →
    (after.read other = .ok raw ↔ before.read other = .ok raw)
  readBack : imageOf (after.read path) = .ok image
  listed : (Command.dump path).run after = ({ exitCode := 0, stdout := image.listing }, after)

/-- The report on an image that was written: the size of the file, and all warnings. -/
structure Report.Tells (report : Report) (path : Path) (assembly : Assembly) : Prop where
  exitCode : report.exitCode = 0
  stdout : report.stdout = paint "32" "compiled" ++
    s!" '{path.text}', written {Text.decimal assembly.image.toBytes.length} bytes\n"
  stderr : report.stderr = String.join (assembly.warnings.map warningLine)

theorem eq_ok_of_toOption {ε α : Type} {x : Except ε α} {a : α} (h : x.toOption = some a) :
    x = .ok a := by
  cases x with
  | error e => cases h
  | ok b => rw [Option.some.inj h]

/-- What is read from a written image. -/
theorem imageOf_toBytes {load : Loader} {opts : Options} {assembly : Assembly}
    (h : Assembles load opts assembly) :
    imageOf (.ok assembly.image.toBytes) = .ok assembly.image := by
  obtain ⟨p, hp, himage⟩ := h.exists_program
  have hcount : assembly.image.labels.length < UInt32.size :=
    Nat.lt_of_le_of_lt (himage.length_labels_le hp) (by decide)
  have hversion : assembly.image.header.version = Image.version := by
    rw [h.header]
    rfl
  have hread : Image.ofBytes assembly.image.toBytes = .ok assembly.image :=
    Image.ofBytes_eq_ok.mpr ⟨hversion, hcount, rfl⟩
  rw [imageOf, hread]
  rfl

/-- A written image is stored. -/
theorem stored_of_write {load : Loader} {opts : Options} {assembly : Assembly} {path : Path}
    {before after : Disk} (h : Assembles load opts assembly)
    (hwrite : before.write path assembly.image.toBytes = .ok after) :
    Stored assembly.image path before after := by
  obtain ⟨place, hreplaces, hlocate⟩ := Disk.write_eq_ok hwrite
  have hbytes := hreplaces.read_of_locate hlocate
  have himage : imageOf (after.read path) = .ok assembly.image := by
    rw [hbytes, imageOf_toBytes h]
  refine ⟨⟨place, hlocate, hreplaces⟩, hbytes, ?_, himage, ?_⟩
  · intro other raw hother
    rw [hlocate] at hother
    exact hreplaces.read_of_locate_ne hother raw
  · rw [Command.run, himage, dumpReport]

namespace AsmCommand

variable {command : AsmCommand} {disk : Disk} {assembly : Assembly}

theorem run_of_refused {e : AssemblyError}
    (h : (assembleFile disk.load command.options command.input).result = .error e) :
    (command.run disk).2 = disk ∧ (command.run disk).1.Fails
      s!"failed to assemble '{command.input.text}': {e.message}" := by
  constructor
  · simp only [run, h]
  · simp only [run, h]
    exact ⟨rfl, rfl, rfl⟩

theorem run_of_unwritten {e : FileError}
    (h : (assembleFile disk.load command.options command.input).result = .ok assembly)
    (hwrite : disk.write command.target assembly.image.toBytes = .error e) :
    (command.run disk).2 = disk ∧ (command.run disk).1.Fails
      s!"failed to write '{command.target.text}': {e.message}" := by
  constructor
  · simp only [run, h, hwrite]
  · simp only [run, h, hwrite]
    exact ⟨rfl, rfl, rfl⟩

theorem run_of_written {after : Disk}
    (h : (assembleFile disk.load command.options command.input).result = .ok assembly)
    (hwrite : disk.write command.target assembly.image.toBytes = .ok after) :
    (command.run disk).2 = after ∧ (command.run disk).1.Tells command.target assembly := by
  constructor
  · simp only [run, h, hwrite]
  · simp only [run, h, hwrite]
    refine ⟨rfl, ?_, rfl⟩
    rw [Image.length_toBytes]
    rfl

theorem exitCode_run_eq_zero_iff :
    (command.run disk).1.exitCode = 0 ↔
      ∃ assembly after,
        (assembleFile disk.load command.options command.input).result = .ok assembly ∧
        disk.write command.target assembly.image.toBytes = .ok after := by
  cases hresult : (assembleFile disk.load command.options command.input).result with
  | error e =>
    rw [(run_of_refused hresult).2.exitCode]
    simp
  | ok assembly =>
    cases hwrite : disk.write command.target assembly.image.toBytes with
    | error e =>
      rw [(run_of_unwritten hresult hwrite).2.exitCode]
      simp [hwrite]
    | ok after =>
      rw [(run_of_written hresult hwrite).2.exitCode]
      simp [hwrite]

/-- **Assembling a file is all or nothing, and what it writes is read back.** A program that is
refused and an image that cannot be written leave the disk as it was. An image that is written
changes the file at the target and nothing else; its size is the one in the report, and it is the
image that is read and listed from there. The exit code is zero in this case and in no other. -/
theorem run_asm (command : AsmCommand) (disk : Disk) :
    (∀ e, (assembleFile disk.load command.options command.input).result = .error e →
      (command.run disk).2 = disk ∧ (command.run disk).1.Fails
        s!"failed to assemble '{command.input.text}': {e.message}") ∧
    (∀ assembly, (assembleFile disk.load command.options command.input).result = .ok assembly →
      (∀ e, disk.write command.target assembly.image.toBytes = .error e →
        (command.run disk).2 = disk ∧ (command.run disk).1.Fails
          s!"failed to write '{command.target.text}': {e.message}") ∧
      ∀ after, disk.write command.target assembly.image.toBytes = .ok after →
        (command.run disk).2 = after ∧ (command.run disk).1.Tells command.target assembly ∧
        Stored assembly.image command.target disk after) ∧
    ((command.run disk).1.exitCode = 0 ↔
      ∃ assembly after,
        (assembleFile disk.load command.options command.input).result = .ok assembly ∧
        disk.write command.target assembly.image.toBytes = .ok after) := by
  refine ⟨fun e => run_of_refused, ?_, exitCode_run_eq_zero_iff⟩
  intro assembly hresult
  refine ⟨fun e => run_of_unwritten hresult, ?_⟩
  intro after hwrite
  obtain ⟨hdisk, htells⟩ := run_of_written hresult hwrite
  exact ⟨hdisk, htells, stored_of_write (.file hresult) hwrite⟩

/-- A program in `a.klt`, half a mnemonic in `b.klt`, and a file where the images of both go. -/
def twoSources : Disk where
  entries := [([Text.encode "out.klb"], .file [1, 2, 3]), ([Text.encode "src"], .directory),
    ([Text.encode "src", Text.encode "a.klt"], .file (Text.encode "hlt")),
    ([Text.encode "src", Text.encode "b.klt"], .file (Text.encode "hl"))]

/-- The file stays for one of them, and becomes its image for the other. -/
theorem twoSources_run_asm :
    let asm (source : String) : AsmCommand := ⟨source, some "src/..//out.klb", {}, false⟩
    let refused := (asm "src/b.klt").run twoSources
    let written := (asm "./src/a.klt").run twoSources
    refused.2 = twoSources ∧ refused.1.exitCode = 1 ∧
    ∃ assembly : Assembly, assembly.image.code = [0, 1, 0, 0] ∧ written.1.exitCode = 0 ∧
      Stored assembly.image "src/..//out.klb" twoSources written.2 := by
  intro asm refused written
  have hsource : twoSources.load "./src/a.klt" = .ok "hlt" :=
    eq_ok_of_toOption (by decide +kernel)
  have hhalf : twoSources.load "src/b.klt" = .ok "hl" := eq_ok_of_toOption (by decide +kernel)
  have htarget : twoSources.target "src/..//out.klb" = .ok [Text.encode "out.klb"] :=
    eq_ok_of_toOption (by decide +kernel)
  have herror : (assembleFile twoSources.load {} "src/b.klt").result =
      .error (.scan ⟨⟨"src/b.klt", 1⟩, .unknownInstruction "hl" "main"⟩) := by
    rw [assembleFile, hhalf]
    cbv
  have hcode : ((assembleFile twoSources.load {} "./src/a.klt").result.map
      fun assembly => assembly.image.code == [0, 1, 0, 0]).toOption = some true := by
    rw [assembleFile, hsource]
    cbv
  obtain ⟨assembly, hok, hcode⟩ := exists_ok_of_map hcode
  obtain ⟨hrefused, -⟩ := run_asm (asm "src/b.klt") twoSources
  obtain ⟨-, hwritten, -⟩ := run_asm (asm "./src/a.klt") twoSources
  obtain ⟨hkept, hfails⟩ := hrefused _ herror
  have hwrite : twoSources.write "src/..//out.klb" assembly.image.toBytes =
      .ok (twoSources.put [Text.encode "out.klb"] (.file assembly.image.toBytes)) := by
    rw [Disk.write, htarget]
    rfl
  obtain ⟨hafter, htells, hstored⟩ := (hwritten assembly hok).2 _ hwrite
  refine ⟨hkept, hfails.exitCode, assembly, eq_of_beq hcode, htells.exitCode, ?_⟩
  rw [show written.2 = _ from hafter]
  exact hstored

end AsmCommand

end StackAsm.Cli
