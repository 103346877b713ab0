import EventSchema.Compilation
import EventSchema.Proofs.Disks

/-!
# All or nothing

A compilation has its module before it touches the disk. The module goes into a new file, which is
moved to the output when it is finished, so that at no point a part of it is there.

* `Disk.Takes` — a path leads to a place where a file can be put;
* `vacant_freshName` — the new file has a place of its own, so it can be erased without a trace;
* `createTemporary_eq_ok_iff`, `fillTemporary_cases`, `moveFile_eq_ok_iff` — the steps that put it
  there, fill it and move it;
* `Replaced`, `replaceFile_replaced` — what a replacement can do: nothing, or all of it, where the
  file may keep the permissions of one that is not finished;
* `Compiled`, `compile_compiled` — the same of a compilation;
* `compile_all_or_nothing` — so a compilation that fails leaves the disk as it was, unless the
  permissions were what failed;
* `compile_eq_ok`, `compile_of_takes` — when a compilation succeeds, and what it leaves;
* `compile_noteDisk_changes_output` — it fails for the permissions, and there is an output.
-/

namespace EventSchema

variable {host : Host} {disk created moved : Disk} {place temporary : Location} {path : String}
  {content : List UInt8} {e : OsError}

/-- An access that is granted gives its own result. -/
theorem access_eq_ok {ε α : Type} {step : DiskStep} {refused : OsError → ε} {result : Except ε α}
    {a : α} (h : host.access step refused result = .ok a) : result = .ok a := by
  rw [Host.access] at h
  split at h
  · cases h
  · exact h

/-- A path leads to a place where a file can be put, beside which another file can be created. -/
structure Disk.Takes (disk : Disk) (path : String) (place : Location) : Prop where
  leads : disk.locate path = .ok place
  free : disk.hasDirectory place = false
  beside : ∃ directory, disk.locate (directoryOf path) = .ok directory ∧
    disk.hasDirectory directory = true

/-- Whether a file can be put at a path depends on the directories alone. -/
theorem Disk.SameDirectories.takes {disk' : Disk} (h : disk.SameDirectories disk')
    (htakes : disk.Takes path place) : disk'.Takes path place := by
  obtain ⟨directory, hleads, hdirectory⟩ := htakes.beside
  exact ⟨h.locate htakes.leads, (h.hasDirectory place).trans htakes.free, directory,
    h.locate hleads, (h.hasDirectory directory).trans hdirectory⟩

/-! ## The new file -/

/-- The fresh name is longer than every name on the disk. -/
theorem length_lt_freshName {entry : Location × DiskNode} (h : entry ∈ disk.nodes) :
    (entry.1.getLast?.getD []).length < (freshName disk).length := by
  have hle := le_foldl_max (fun e : Location × DiskNode => (e.1.getLast?.getD []).length) h 0
  have hletters : 0 < ".evgen-".toList.length := by decide
  unfold freshName
  dsimp only at hle ⊢
  generalize ".evgen-".toList = front at hletters ⊢
  generalize ".tmp".toList = back
  simp only [List.length_append, List.length_replicate]
  omega

/-- Nothing has the fresh name, in whatever directory. -/
theorem vacant_freshName (disk : Disk) (directory : Location) :
    disk.Vacant (directory ++ [freshName disk]) := by
  intro entry hentry heq
  have hlt := length_lt_freshName hentry
  rw [heq, List.getLast?_concat, Option.getD_some] at hlt
  exact lt_irrefl _ hlt

/-- A new file is empty, in the directory of the path, at a place where nothing was. -/
theorem createTemporary_eq_ok_iff :
    createTemporary disk path = .ok (temporary, created) ↔
      ∃ directory, disk.locate (directoryOf path) = .ok directory ∧
        disk.hasDirectory directory = true ∧ temporary = directory ++ [freshName disk] ∧
        created = disk.set temporary (.file [] temporaryMode) := by
  rw [createTemporary]
  cases hlocate : disk.locate (directoryOf path) with
  | error e => simp [bind, Except.bind]
  | ok directory =>
    simp only [bind, Except.bind, Except.ok.injEq, exists_eq_left', Disk.hasDirectory_iff]
    cases hnode : disk.node? directory with
    | none => simp
    | some node =>
      cases node with
      | file content mode => simp
      | directory =>
        simp only [pure, Except.pure, Except.ok.injEq, Prod.mk.injEq, true_and]
        constructor
        · rintro ⟨rfl, rfl⟩
          exact ⟨rfl, rfl⟩
        · rintro ⟨rfl, rfl⟩
          exact ⟨rfl, rfl⟩

/-- Writing a new file either ends with all of the content there, or what was written can be erased
without a trace. -/
theorem fillTemporary_cases (host : Host) (content : List UInt8) (h : disk.Vacant temporary) :
    (∃ e left, fillTemporary host (disk.set temporary (.file [] temporaryMode)) temporary content =
        (.error e, left) ∧ left.erase temporary = disk) ∨
      fillTemporary host (disk.set temporary (.file [] temporaryMode)) temporary content =
        (.ok (), disk.set temporary (.file content temporaryMode)) := by
  rw [fillTemporary]
  cases host.refuses .writeTemporary with
  | some e => exact .inl ⟨e, _, rfl, Disk.erase_set h⟩
  | none =>
    dsimp only
    rw [Disk.set_set]
    cases host.refuses .syncTemporary with
    | some e => exact .inl ⟨e, _, rfl, Disk.erase_set h⟩
    | none => exact .inr rfl

/-- A new file that is moved stands where the path leads, and is the only change. -/
theorem moveFile_eq_ok_iff {mode : Nat} (hne : temporary ≠ []) (hvacant : disk.Vacant temporary) :
    moveFile (disk.set temporary (.file content mode)) temporary path = .ok (place, moved) ↔
      disk.locate path = .ok place ∧ disk.hasDirectory place = false ∧
        moved = disk.set place (.file content mode) := by
  have hfree : disk.hasDirectory temporary = false := by
    rw [Disk.hasDirectory, Disk.node?_of_vacant hvacant hne]
    rfl
  have hsame := Disk.sameDirectories_set hfree content mode
  rw [moveFile]
  cases hlocate : (disk.set temporary (.file content mode)).locate path with
  | error e =>
    simp only [bind, Except.bind, reduceCtorEq, false_iff]
    rintro ⟨hleads, -⟩
    cases hlocate.symm.trans (hsame.locate hleads)
  | ok target =>
    simp only [bind, Except.bind, Disk.node?_set_self hne, Disk.erase_set hvacant,
      hsame.symm.locate hlocate, Except.ok.injEq]
    cases htarget : disk.hasDirectory target with
    | true =>
      have hdirectory := htarget
      rw [← hsame.hasDirectory, Disk.hasDirectory_iff] at hdirectory
      simp only [hdirectory, reduceCtorEq, false_iff]
      rintro ⟨rfl, hfree, -⟩
      cases htarget.symm.trans hfree
    | false =>
      have hnone : (disk.set temporary (.file content mode)).node? target ≠ some .directory := by
        rw [ne_eq, ← Disk.hasDirectory_iff, hsame.hasDirectory, htarget]
        exact Bool.false_ne_true
      simp only [pure, Except.pure, Except.ok.injEq, Prod.mk.injEq]
      constructor
      · rintro ⟨rfl, rfl⟩
        exact ⟨rfl, htarget, rfl⟩
      · rintro ⟨rfl, -, rfl⟩
        exact ⟨rfl, rfl⟩

/-! ## The replacement -/

/-- What the replacement of a file can do. -/
inductive Replaced (host : Host) (disk : Disk) (path : String) (content : List UInt8) :
    Except OsError Unit × Disk → Prop
  /-- it fails before the file is reached -/
  | kept (e : OsError) : Replaced host disk path content (.error e, disk)
  | done {place : Location} (htakes : disk.Takes path place)
      (hmode : host.refuses .setMode = none) :
      Replaced host disk path content (.ok (), disk.set place (.file content Disk.fileMode))
  /-- the content is there, but nobody else may read it -/
  | restricted {place : Location} {e : OsError} (htakes : disk.Takes path place)
      (hmode : host.refuses .setMode = some e) :
      Replaced host disk path content (.error e, disk.set place (.file content temporaryMode))

/-- A replacement does one of these things, whatever the host refuses. -/
theorem replaceFile_replaced (host : Host) (disk : Disk) (path : String) (content : List UInt8) :
    Replaced host disk path content (replaceFile host disk path content) := by
  rw [replaceFile]
  split
  · exact .kept _
  · next temporary created hcreate =>
    obtain ⟨directory, hleads, hdirectory, rfl, rfl⟩ :=
      createTemporary_eq_ok_iff.1 (access_eq_ok hcreate)
    have hvacant := vacant_freshName disk directory
    rcases fillTemporary_cases host content hvacant with ⟨e, left, hfill, herase⟩ | hfill
    · simp only [hfill, herase]
      exact .kept e
    · simp only [hfill]
      split
      · rw [Disk.erase_set hvacant]
        exact .kept _
      · next output moved hmove =>
        obtain ⟨hplace, hfree, rfl⟩ :=
          (moveFile_eq_ok_iff (List.concat_ne_nil _ _) hvacant).1 (access_eq_ok hmove)
        have htakes : disk.Takes path output := ⟨hplace, hfree, directory, hleads, hdirectory⟩
        split
        · next e hmode => exact .restricted htakes hmode
        · next hmode =>
          rw [Disk.set_set]
          exact .done htakes hmode

/-- Where a file can be put, a host that refuses nothing puts it. -/
theorem replaceFile_of_takes (hgrants : ∀ step, host.refuses step = none)
    (htakes : disk.Takes path place) (content : List UInt8) :
    replaceFile host disk path content =
      (.ok (), disk.set place (.file content Disk.fileMode)) := by
  obtain ⟨directory, hleads, hdirectory⟩ := htakes.beside
  have hcreate := createTemporary_eq_ok_iff.2 ⟨directory, hleads, hdirectory, rfl, rfl⟩
  have hmove : moveFile (disk.set (directory ++ [freshName disk]) (.file content temporaryMode))
      (directory ++ [freshName disk]) path = .ok (place, disk.set place _) :=
    (moveFile_eq_ok_iff (List.concat_ne_nil _ _) (vacant_freshName disk directory)).2
      ⟨htakes.leads, htakes.free, rfl⟩
  simp only [replaceFile, fillTemporary, Host.access, hgrants, hcreate, hmove, Disk.set_set]

/-! ## The compilation -/

/-- The report of a compilation of some module. -/
def Rendered.report (rendered : Rendered) (settings : Settings) : Report :=
  ⟨rendered.documents, rendered.events, (Text.Utf8.encode rendered.module).length, settings.output⟩

/-- What a compilation can do. -/
inductive Compiled (host : Host) (disk : Disk) (settings : Settings) :
    Except CompileError Report × Disk → Prop
  /-- there is no module, or it does not get to its place -/
  | kept (e : CompileError) : Compiled host disk settings (.error e, disk)
  | done {rendered : Rendered} {place : Location}
      (hrender : render host disk settings.pattern settings.options = .ok rendered)
      (htakes : disk.Takes settings.output place) (hmode : host.refuses .setMode = none) :
      Compiled host disk settings (.ok (rendered.report settings),
        disk.set place (.file (Text.Utf8.encode rendered.module) Disk.fileMode))
  /-- the module is at its place, but the compilation fails -/
  | restricted {rendered : Rendered} {place : Location} {cause : OsError}
      (hrender : render host disk settings.pattern settings.options = .ok rendered)
      (htakes : disk.Takes settings.output place) (hmode : host.refuses .setMode = some cause) :
      Compiled host disk settings (.error (.outputUnwritable settings.output cause),
        disk.set place (.file (Text.Utf8.encode rendered.module) temporaryMode))

/-- A compilation does one of these things, whatever the host refuses. -/
theorem compile_compiled (host : Host) (disk : Disk) (settings : Settings) :
    Compiled host disk settings (compile host disk settings) := by
  rw [compile]
  cases hrender : render host disk settings.pattern settings.options with
  | error e => exact .kept e
  | ok rendered =>
    have hreplaced := replaceFile_replaced host disk settings.output
      (Text.Utf8.encode rendered.module)
    dsimp only
    generalize replaceFile host disk settings.output (Text.Utf8.encode rendered.module) = answer
      at hreplaced
    cases hreplaced with
    | kept e => exact .kept _
    | done htakes hmode => exact .done hrender htakes hmode
    | restricted htakes hmode => exact .restricted hrender htakes hmode

/-- A compilation replaces its output in full or not at all, whatever the host refuses.
* If it succeeds, its output holds the module, and the report counts the bytes of it.
* If it fails, the disk is as it was before, but for one case: when all is done but for the
  permissions of the output, and those cannot be set. The output holds the module then, though the
  failure is reported. -/
theorem compile_all_or_nothing (host : Host) (disk : Disk) (settings : Settings) :
    match compile host disk settings with
    | (.ok report, after) =>
      ∃ rendered, render host disk settings.pattern settings.options = .ok rendered ∧
        after.read settings.output = .ok (Text.Utf8.encode rendered.module) ∧
        report.bytes = (Text.Utf8.encode rendered.module).length
    | (.error e, after) =>
      after = disk ∨
        ∃ cause, host.refuses .setMode = some cause ∧ e = .outputUnwritable settings.output cause ∧
          ∃ rendered, render host disk settings.pattern settings.options = .ok rendered ∧
            after.read settings.output = .ok (Text.Utf8.encode rendered.module) := by
  have hcompiled := compile_compiled host disk settings
  generalize compile host disk settings = answer at hcompiled
  cases hcompiled with
  | kept e => exact .inl rfl
  | @done rendered place hrender htakes hmode =>
    exact ⟨rendered, hrender, Disk.read_set htakes.free htakes.leads _ _, rfl⟩
  | @restricted rendered place cause hrender htakes hmode =>
    exact .inr ⟨cause, hmode, rfl, rendered, hrender, Disk.read_set htakes.free htakes.leads _ _⟩

/-- A compilation that succeeds has put its module at the place that its output leads to. -/
theorem compile_eq_ok {settings : Settings} {report : Report} {after : Disk}
    (h : compile host disk settings = (.ok report, after)) :
    ∃ rendered place, render host disk settings.pattern settings.options = .ok rendered ∧
      disk.Takes settings.output place ∧
      after = disk.set place (.file (Text.Utf8.encode rendered.module) Disk.fileMode) ∧
      report = rendered.report settings := by
  have hcompiled := compile_compiled host disk settings
  rw [h] at hcompiled
  cases hcompiled with
  | @done rendered place hrender htakes hmode => exact ⟨rendered, place, hrender, htakes, rfl, rfl⟩

/-- A host that refuses nothing compiles what can be rendered to where a file can be put. -/
theorem compile_of_takes {settings : Settings} {rendered : Rendered}
    (hgrants : ∀ step, host.refuses step = none)
    (hrender : render host disk settings.pattern settings.options = .ok rendered)
    (htakes : disk.Takes settings.output place) :
    compile host disk settings = (.ok (rendered.report settings),
      disk.set place (.file (Text.Utf8.encode rendered.module) Disk.fileMode)) := by
  simp only [compile, hrender, replaceFile_of_takes hgrants htakes, Rendered.report]

/-! ## Permissions that cannot be set -/

/-- The host that refuses one access and no other. -/
def Host.refusing (step : DiskStep) (cause : OsError) : Host :=
  { Host.reliable with refuses := fun s => if s = step then some cause else none }

/-- A directory with a document. -/
def noteDisk : Disk :=
  ⟨[(["note.json".toList], .file (Text.Utf8.encode "\x7b\"title\":\"Note\"\x7d") Disk.fileMode)],
    []⟩

/-- The settings with which it is compiled. -/
def noteSettings : Settings := ⟨"*.json", "note.ts", .default⟩

/-- The compilation fails when the permissions cannot be set, and yet there is an output where there
was none. -/
theorem compile_noteDisk_changes_output :
    let host := Host.refusing .setMode (.other "Operation not permitted (os error 1)")
    let (answer, after) := compile host noteDisk noteSettings
    answer.isOk = false ∧ noteDisk.read noteSettings.output = .error .notFound ∧
      (after.read noteSettings.output).isOk = true := by
  decide +kernel

end EventSchema
